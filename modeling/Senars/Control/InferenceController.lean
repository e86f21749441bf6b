/-
This file is the inference cycle: the loop over the sampled concepts, the loop over
what is derived from each, and the bounds that end them.

What the cycle meets comes from outside, so a sampled concept is given as what the
cycle reads of it: its belief, the tasks its derivation streams, and, for its turn
and for each task, whether the signal is aborted or the deadline over at that
moment. How the script writes a number is a parameter of the detector's key.
-/

import Senars.Algebra.Truth
import Senars.Control.Budgets
import Senars.Library.Runs
import Senars.Terms.Stamp
import Senars.Terms.TermKey

namespace Senars.Control

open Library Library.Flow Terms Senars.Algebra

/-! ### Tasks -/

structure Task where
  term : Term
  truth : Truth
  stamp : Stamp

/-- The bounds a cycle reads. -/
structure InferenceConfig where
  maxDerivationsPerStep : Nat
  maxDerivationDepth : Nat
  enableCircularDetection : Bool
  /-- How the script writes a number. -/
  toText : JsNumber → String

def exceedsDepthLimit (task : Task) (maxDepth : Nat) : Bool :=
  maxDepth ≤ task.stamp.derivations.length

/-! ### Repeated conclusions -/

def maxRecentConclusions : Nat := 1000

def conclusionKey (toText : JsNumber → String) (task : Task) : String :=
  task.stamp.id ++ "|" ++ termKey task.term ++ "|" ++ toText (.finite task.truth.f) ++ ":" ++
    toText (.finite task.truth.c)

/-- The keys of the recent conclusions, the oldest first. -/
structure CircularDetector where
  recent : List String

/-- A new key, which pushes the oldest out when the map is full. -/
def CircularDetector.remember (detector : CircularDetector) (key : String) : CircularDetector :=
  ⟨(if maxRecentConclusions ≤ detector.recent.length then detector.recent.tail
    else detector.recent) ++ [key]⟩

/-- Whether a conclusion repeats. -/
def isCircular (config : InferenceConfig) (detector : CircularDetector) (task : Task) :
    Bool × CircularDetector :=
  if config.enableCircularDetection then
    if conclusionKey config.toText task ∈ detector.recent then (true, detector)
    else (false, detector.remember (conclusionKey config.toText task))
  else (false, detector)

/-! ### The cycle -/

/-- A derived task as the loop meets it. -/
structure Derived where
  task : Task
  /-- The signal is aborted or the deadline over when the task arrives. -/
  interrupted : Bool

/-- A sampled concept as the loop meets it. -/
structure SampledConcept where
  /-- The signal is aborted or the deadline over when its turn comes. -/
  interrupted : Bool
  beliefTask : Option Task
  derive : List Derived

/-- What the controller changes during a cycle. -/
structure CycleState where
  derivationCount : Nat
  emitted : Nat
  detector : CircularDetector
  budgets : ControlBudgetPort

def derivationBudgetSpent (config : InferenceConfig) (state : CycleState) : Bool × CycleState :=
  if state.budgets.budgeted then
    let output := state.budgets.charge .derivations
    (!output.1, { state with budgets := output.2 })
  else (config.maxDerivationsPerStep ≤ state.derivationCount, state)

/-- Count a task, yield it, and see whether it was the last one. -/
def emit (config : InferenceConfig) (maxResults : Nat) (state : CycleState) (task : Task) :
    Flow Task CycleState :=
  let counted := { state with
    derivationCount := state.derivationCount + 1, emitted := state.emitted + 1 }
  if maxResults ≤ counted.emitted then ⟨[task], counted, true⟩
  else
    let spent := derivationBudgetSpent config counted
    ⟨[task], spent.2, spent.1⟩

/-- The turn of one derived task. -/
def derivedTurn (config : InferenceConfig) (maxResults : Nat) (state : CycleState)
    (derived : Derived) : Flow Task CycleState :=
  if derived.interrupted then exit state
  else if exceedsDepthLimit derived.task config.maxDerivationDepth then pass state
  else
    let repeated := isCircular config state.detector derived.task
    let checked := { state with detector := repeated.2 }
    if repeated.1 then pass checked else emit config maxResults checked derived.task

/-- The turn of one sampled concept. -/
def conceptTurn (config : InferenceConfig) (maxResults : Nat) (state : CycleState)
    (concept : SampledConcept) : Flow Task CycleState :=
  if concept.interrupted || maxResults ≤ state.emitted then exit state
  else
    match concept.beliefTask with
    | none => pass state
    | some _ =>
      let output := state.budgets.charge .premises
      let charged := { state with budgets := output.2 }
      if output.1 then forOf (derivedTurn config maxResults) charged concept.derive
      else exit charged

/-- One cycle over the sampled concepts. -/
def cycle (config : InferenceConfig) (detector : CircularDetector) (budgets : ControlBudgetPort)
    (maxResults : Nat) (concepts : List SampledConcept) : Flow Task CycleState :=
  forOf (conceptTurn config maxResults) ⟨0, 0, detector, budgets⟩ concepts

end Senars.Control
