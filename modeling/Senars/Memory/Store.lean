/-
This file is the memory: the resident concepts, the index over them, the ones in focus and
the archive of those that had to leave.

A concept is an object. What the maps hold is the number of the object, in the order the
objects were made, and what an object is at the time is kept beside them.
-/

import Senars.Library.OrderedMap
import Senars.Library.Capped
import Senars.Memory.Tasks
import Mathlib.Data.Prod.Lex

namespace Senars.Memory

open Library Bag Terms Senars.Algebra

/-! ### Concepts -/

/-- A term as the script holds it: which object it is, and what it says. -/
structure TermRef where
  object : ℕ
  term : Term
  deriving DecidableEq

def TermRef.key (ref : TermRef) : String := termKey ref.term

/-- A concept object. -/
structure ConceptCell where
  term : TermRef
  concept : Concept TaskData
  lastAccessedAt : ℚ

namespace ConceptCell

def priority (cell : ConceptCell) : ℚ := cell.concept.priority

def totalTasks (cell : ConceptCell) : ℕ :=
  cell.concept.beliefBag.list.length + cell.concept.goalBag.list.length +
    cell.concept.questionBag.list.length

end ConceptCell

/-! ### Sets under keys -/

/-- Add a value to the set under a key. -/
def addToSet {Key Value : Type} [DecidableEq Key] [DecidableEq Value]
    (map : OrderedMap Key (List Value)) (key : Key) (value : Value) :
    OrderedMap Key (List Value) :=
  map.set key (addMember ((map.get key).getD []) value)

/-- Take a value out of the set under a key, which goes once it is empty. -/
def removeFromSet {Key Value : Type} [DecidableEq Key] [DecidableEq Value]
    (map : OrderedMap Key (List Value)) (key : Key) (value : Value) :
    OrderedMap Key (List Value) :=
  match map.get key with
  | none => map
  | some bucket =>
    let left := bucket.filter fun other => other ≠ value
    if left = [] then map.delete key else map.set key left

/-! ### The index -/

structure MemoryIndex where
  atomicIndex : OrderedMap String (List ℕ) := .empty
  temporalIndex : OrderedMap ℤ (List ℕ) := .empty
  temporalKeys : OrderedMap ℕ ℤ := .empty

namespace MemoryIndex

def add (index : MemoryIndex) (key : String) (object : ℕ) (now : ℚ) : MemoryIndex :=
  let bucket := ⌊now / 1000⌋
  { atomicIndex := addToSet index.atomicIndex key object
    temporalIndex := addToSet index.temporalIndex bucket object
    temporalKeys := index.temporalKeys.set object bucket }

def remove (index : MemoryIndex) (key : String) (object : ℕ) : MemoryIndex :=
  let atomicIndex := removeFromSet index.atomicIndex key object
  match index.temporalKeys.get object with
  | none => { index with atomicIndex }
  | some temporalKey =>
    { atomicIndex
      temporalIndex := removeFromSet index.temporalIndex temporalKey object
      temporalKeys := index.temporalKeys.delete object }

end MemoryIndex

/-! ### The memory -/

inductive ForgettingPolicy where
  | fifo
  | lowestPriority
  deriving DecidableEq

structure MemoryConfig where
  maxConcepts : ℕ := 1000
  /-- None where there is no bound. -/
  maxTasks : Option ℕ := none
  consolidationInterval : ℕ := 10
  focusMaxConcepts : ℕ := 50
  archiveMaxConcepts : ℕ := 1000
  enableIndexing : Bool := true
  enableArchive : Bool := true
  forgettingPolicy : ForgettingPolicy := .fifo

end Senars.Memory

namespace Senars

open Library Memory in
structure Memory where
  config : MemoryConfig
  /-- What each concept object is. -/
  cell : ℕ → ConceptCell
  /-- The number of concept objects that were made. -/
  made : ℕ := 0
  concepts : OrderedMap String ℕ := .empty
  index : MemoryIndex := {}
  focus : OrderedMap String ℕ := .empty
  archived : OrderedMap TermRef ℕ := .empty
  cyclesSinceConsolidation : ℕ := 0

end Senars

namespace Senars.Memory

open Library Bag Terms Senars.Algebra

/-- The first value of the lowest score. -/
def minBy {Value : Type} (score : Value → ℚ) : List Value → Option Value
  | [] => none
  | value :: rest =>
    match minBy score rest with
    | none => some value
    | some lowest => if score lowest < score value then some lowest else some value

/-- By rising score. -/
def byScore {Value : Type} (score : Value → ℚ) : Comparison Value :=
  byPriority fun value => -score value

/-- The first of the values with the highest scores. -/
def selectTopN {Value : Type} (values : List Value) (count : ℕ) (score : Value → ℚ) :
    List Value :=
  ((byPriority score).toSorted values).take count

/-- The first values, a share of them all, rounded up. -/
def shareOf {Value : Type} (values : List Value) (fraction : ℚ) : List Value :=
  values.take ⌈(values.length : ℚ) * fraction⌉.toNat

/-- Set a key of a cache that is used last, and let the key that was used first go where there is no
room for another. -/
def setLast {Key Value : Type} [DecidableEq Key] (map : OrderedMap Key Value) (maxSize : ℕ)
    (key : Key) (value : Value) : OrderedMap Key Value :=
  if (map.get key).isSome then (map.delete key).set key value
  else
    match map.entries with
    | first :: _ =>
      if maxSize ≤ map.size then (map.delete first.1).set key value else map.set key value
    | [] => map.set key value

def listConcepts (memory : Memory) : List ℕ := memory.concepts.entries.map Prod.snd

/-! ### Concepts in focus -/

/-- Put a concept in focus; where there is no room, in the place of the lowest one, if it is
higher. -/
def addToFocus (memory : Memory) (object : ℕ) : Memory :=
  let key := (memory.cell object).term.key
  if memory.config.focusMaxConcepts ≤ memory.focus.size ∧ memory.focus.get key = none then
    match minBy (fun other => (memory.cell other).priority)
        (memory.focus.entries.map Prod.snd) with
    | none => memory
    | some lowest =>
      if (memory.cell object).priority ≤ (memory.cell lowest).priority then memory
      else
        { memory with
          focus := (memory.focus.delete (memory.cell lowest).term.key).set key object }
  else { memory with focus := memory.focus.set key object }

/-- Put the highest concepts in focus. -/
def updateAllFocus (memory : Memory) : Memory :=
  (selectTopN memory.listConcepts memory.config.focusMaxConcepts fun object =>
    (memory.cell object).priority).foldl addToFocus { memory with focus := .empty }

/-! ### Adding and removing -/

def removeConcept (memory : Memory) (key : String) : Bool × Memory :=
  match memory.concepts.get key with
  | none => (false, memory)
  | some object =>
    let conceptKey := (memory.cell object).term.key
    (true,
      { memory with
        focus := memory.focus.delete conceptKey
        index := if memory.config.enableIndexing then memory.index.remove conceptKey object
          else memory.index
        concepts := memory.concepts.delete key })

/-- Remove the concept the policy gives up. -/
def applyForgetting (memory : Memory) : Memory :=
  let score := fun object => match memory.config.forgettingPolicy with
    | .fifo => (memory.cell object).lastAccessedAt
    | .lowestPriority => (memory.cell object).priority
  match minBy score memory.listConcepts with
  | none => memory
  | some victim => (memory.removeConcept (memory.cell victim).term.key).2

/-- Make a concept object the one of its term. -/
def adoptConcept (memory : Memory) (object : ℕ) (now : ℚ) : Memory :=
  let key := (memory.cell object).term.key
  addToFocus
    { memory with
      concepts := memory.concepts.set key object
      index := if memory.config.enableIndexing then memory.index.add key object now
        else memory.index }
    object

/-- The concept of a term, which is made where there is none. -/
def addConcept (memory : Memory) (term : TermRef) (now : ℚ) : ℕ × Memory :=
  match memory.concepts.get term.key with
  | some object => (object, memory)
  | none =>
    let left := if memory.config.maxConcepts ≤ memory.concepts.size then memory.applyForgetting
      else memory
    let cell := Function.update left.cell left.made ⟨term, newConcept 100 50 20, now⟩
    (left.made, adoptConcept { left with cell, made := left.made + 1 } left.made now)

def addTask (memory : Memory) (term : TermRef) (kind : TaskKind) (truth : Option Truth)
    (budget : Budget) (stamp : Stamp) (madeId : String) (now : ℚ) : Bool × Memory :=
  let (object, left) := memory.addConcept term now
  let before := left.cell object
  let (accepted, concept) :=
    before.concept.addTask kind { term := term.term, truth, budget, stamp } madeId now
  let lastAccessedAt := if accepted then now else before.lastAccessedAt
  (accepted,
    { left with cell := Function.update left.cell object ⟨before.term, concept, lastAccessedAt⟩ })

/-! ### The archive -/

/-- Move a concept to the archive. -/
def archiveConcept (memory : Memory) (object : ℕ) : Bool × Memory :=
  if memory.config.enableArchive then
    let term := (memory.cell object).term
    removeConcept
      { memory with
        archived := setLast memory.archived (max 1 memory.config.archiveMaxConcepts) term object }
      term.key
  else (false, memory)

/-- Make the archived concept of a term resident again. -/
def retrieveFromArchive (memory : Memory) (term : TermRef) (now : ℚ) : Option ℕ × Memory :=
  if memory.config.enableArchive then
    match memory.archived.get term with
    | none => (none, memory)
    | some object =>
      (some object,
        adoptConcept { memory with archived := memory.archived.delete term } object now)
  else (none, memory)

def clear (memory : Memory) : Memory :=
  { memory with
    concepts := .empty
    focus := .empty
    index := if memory.config.enableIndexing then {} else memory.index
    archived := if memory.config.enableArchive then .empty else memory.archived }

/-! ### Consolidating -/

/-- How full something is, from zero to one. -/
def occupancy (used : ℕ) (capacity : Option ℕ) : ℚ :=
  match capacity with
  | none => 0
  | some capacity => if 0 < capacity then max 0 (min 1 ((used : ℚ) / capacity)) else 1

def totalTasks (memory : Memory) : ℕ :=
  (memory.listConcepts.map fun object => (memory.cell object).totalTasks).sum

/-- How close the memory is to one of its bounds. -/
def capacityPressure (memory : Memory) : ℚ :=
  max (occupancy memory.concepts.size memory.config.maxConcepts)
    (occupancy memory.totalTasks memory.config.maxTasks)

/-- What a concept is worth: its attention and one more while it has tasks. -/
def conceptValue (memory : Memory) (object : ℕ) : ℚ :=
  (memory.cell object).priority + if 0 < (memory.cell object).totalTasks then 1 else 0

/-- The oldest first, and the one worth less of two as old. -/
def evictionOrder (memory : Memory) : Comparison ℕ where
  le first second :=
    decide (toLex ((memory.cell first).lastAccessedAt, memory.conceptValue first) ≤
      toLex ((memory.cell second).lastAccessedAt, memory.conceptValue second))
  total first second := by
    rw [decide_eq_true_iff, decide_eq_true_iff]
    exact le_total _ _
  trans first second third := by
    rw [decide_eq_true_iff, decide_eq_true_iff, decide_eq_true_iff]
    exact le_trans

/-- Archive concepts one after the other. -/
def archiveAll (memory : Memory) (objects : List ℕ) : Memory :=
  objects.foldl (fun memory object => (memory.archiveConcept object).2) memory

/-- Remove the concepts of some terms one after the other. -/
def removeAll (memory : Memory) (keys : List String) : Memory :=
  keys.foldl (fun memory key => (memory.removeConcept key).2) memory

/-- Under pressure, archive a share of the concepts without tasks, and under more of it remove a
share of the others too. -/
def evictUnderPressure (memory : Memory) : Memory :=
  let pressure := memory.capacityPressure
  if pressure ≤ 4 / 5 then memory
  else
    let idle := (byScore memory.conceptValue).toSorted
      (memory.listConcepts.filter fun object => (memory.cell object).totalTasks = 0)
    let archivedNow := shareOf idle (min (3 / 10) (pressure - 1 / 2))
    let left := memory.archiveAll archivedNow
    if pressure ≤ 9 / 10 then left
    else
      let remainder := left.evictionOrder.toSorted (memory.listConcepts.filter fun object =>
        object ∉ archivedNow ∧ left.concepts.get (left.cell object).term.key ≠ none)
      let victims := shareOf remainder (min (1 / 5) (pressure - 4 / 5))
      left.removeAll (victims.map fun object => (left.cell object).term.key)

/-- The memory whose concepts have the attention a model leaves them. -/
def attend (memory : Memory) (attention : ℕ → ℚ) : Memory :=
  { memory with
    cell := fun object =>
      let cell := memory.cell object
      if object ∈ memory.listConcepts then
        { cell with concept := { cell.concept with priority := attention object } }
      else cell }

/-- Consolidate, once there were enough cycles. What the attention model leaves the concepts comes
with it. -/
def consolidate (memory : Memory) (attention : ℕ → ℚ) : Memory :=
  let cycles := memory.cyclesSinceConsolidation + 1
  if cycles < memory.config.consolidationInterval then
    { memory with cyclesSinceConsolidation := cycles }
  else
    updateAllFocus
      ({ memory with cyclesSinceConsolidation := 0 }.attend attention).evictUnderPressure

/-! ### Runs -/

/-- What may be done to a memory. An archived concept is one of those that were made. -/
inductive MemoryEvent where
  | addConcept (term : TermRef) (now : ℚ)
  | addTask (term : TermRef) (kind : TaskKind) (truth : Option Truth) (budget : Budget)
    (stamp : Stamp) (madeId : String) (now : ℚ)
  | removeConcept (term : TermRef)
  | archiveConcept (object : ℕ)
  | retrieveFromArchive (term : TermRef) (now : ℚ)
  | consolidate (attention : ℕ → ℚ)
  | clear

def memoryStep : Machine Memory MemoryEvent
  | memory, .addConcept term now => some (memory.addConcept term now).2
  | memory, .addTask term kind truth budget stamp madeId now =>
    some (memory.addTask term kind truth budget stamp madeId now).2
  | memory, .removeConcept term => some (memory.removeConcept term.key).2
  | memory, .archiveConcept object =>
    if object < memory.made then some (memory.archiveConcept object).2 else none
  | memory, .retrieveFromArchive term now => some (memory.retrieveFromArchive term now).2
  | memory, .consolidate attention => some (memory.consolidate attention)
  | memory, .clear => some memory.clear

/-- A memory without concepts. -/
def newMemory (config : MemoryConfig) : Memory where
  config
  cell := fun _ => ⟨⟨0, .atom ""⟩, newConcept 100 50 20, 0⟩

end Senars.Memory
