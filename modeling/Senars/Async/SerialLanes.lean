/-
This file is serial execution with one lane for each key. A work waits for the tail of
its lane, and the tail of a lane is let go of once it has settled, if it is still the
tail then.
-/

import Senars.Library.OrderedMap
import Senars.Library.Promises
import Senars.Library.Runs

namespace Senars.Async

open Library

/-! ### The lanes -/

/-- A work, by the key it was submitted for and how many were submitted for it before. -/
structure Work (Key : Type) where
  key : Key
  number : ℕ
  deriving DecidableEq

/-- The promises there are: `IDLE`, what a caller of `run` is given, the tail of the lane behind it,
and what the work itself returned. -/
inductive Promised (Key : Type) where
  | idle
  | settled (work : Work Key)
  | tail (work : Work Key)
  | returned (work : Work Key)
  deriving DecidableEq

/-- The reactions there are: a work is called, what it returned is subscribed to and then settles
what its caller was given, the tail behind it is settled, and the lane is let go of. -/
inductive Reaction (Key : Type) where
  | call (work : Work Key)
  | adopt (work : Work Key)
  | resolve (work : Work Key)
  | release (work : Work Key)
  | drop (work : Work Key)
  deriving DecidableEq

/-- The lanes, with the promises they are made of, and the works that were submitted, the one that
is being called, those that were called in order, and how a work ended. -/
structure SerialLanes (Key Value Reason : Type) [DecidableEq Key] where
  tails : OrderedMap Key (Promised Key) := .empty
  promises : Promises (Promised Key) (Reaction Key) Value Reason :=
    { outcome := fun promise => if promise = .idle then some (.fulfilled none) else none
      waiting := []
      jobs := [] }
  submitted : Key → ℕ := fun _ => 0
  calling : Option (Work Key) := none
  started : List (Work Key) := []
  ended : Work Key → Option (Settlement Value Reason) := fun _ => none

namespace SerialLanes

variable {Key Value Reason : Type} [DecidableEq Key]

/-- Enqueue a work on a lane. -/
def run (lanes : SerialLanes Key Value Reason) (key : Key) : SerialLanes Key Value Reason :=
  let work : Work Key := ⟨key, lanes.submitted key⟩
  let before := (lanes.tails.get key).getD .idle
  { lanes with
    promises := ((lanes.promises.subscribe before (.call work)).subscribe (.settled work)
      (.release work)).subscribe (.tail work) (.drop work)
    tails := lanes.tails.set key (.tail work)
    submitted := Function.update lanes.submitted key (lanes.submitted key + 1) }

/-- A job. A work that waits for what was rejected is not called. -/
def react (lanes : SerialLanes Key Value Reason) :
    Reaction Key → Settlement Value Reason → SerialLanes Key Value Reason
  | .call work, .fulfilled _ =>
    { lanes with calling := some work, started := lanes.started ++ [work] }
  | .call work, .rejected reason =>
    { lanes with promises := lanes.promises.settle (.settled work) (.rejected reason) }
  | .adopt work, _ =>
    { lanes with promises := lanes.promises.subscribe (.returned work) (.resolve work) }
  | .resolve work, outcome =>
    { lanes with promises := lanes.promises.settle (.settled work) outcome }
  | .release work, _ =>
    { lanes with promises := lanes.promises.settle (.tail work) (.fulfilled none) }
  | .drop work, _ =>
    if lanes.tails.get work.key = some (.tail work) then
      { lanes with tails := lanes.tails.delete work.key }
    else lanes

/-- What can happen: a work is submitted, a job runs, a work that was called returns its promise or
throws, and the promise of a work settles. -/
inductive LaneEvent (Key Value Reason : Type) where
  | submit (key : Key)
  | turn
  | returned
  | threw (reason : Reason)
  | ended (work : Work Key) (outcome : Settlement Value Reason)

/-- No job runs before the work that is being called has returned. Work may be submitted while it
is, and its promise may settle before it is returned. -/
def step : Machine (SerialLanes Key Value Reason) (LaneEvent Key Value Reason)
  | lanes, .submit key => some (lanes.run key)
  | lanes, .turn =>
    match lanes.calling, lanes.promises.jobs with
    | none, (reaction, outcome) :: rest =>
      some (({ lanes with promises := { lanes.promises with jobs := rest } }).react reaction
        outcome)
    | _, _ => none
  | lanes, .returned =>
    lanes.calling.map fun work =>
      { lanes with
        promises := lanes.promises.enqueue (.adopt work) (.fulfilled none)
        calling := none }
  | lanes, .threw reason =>
    lanes.calling.bind fun work =>
      if lanes.ended work = none then
        some { lanes with
          promises := lanes.promises.settle (.settled work) (.rejected reason)
          calling := none
          ended := Function.update lanes.ended work (some (.rejected reason)) }
      else none
  | lanes, .ended work outcome =>
    if work ∈ lanes.started ∧ lanes.ended work = none then
      some { lanes with
        promises := lanes.promises.settle (.returned work) outcome
        ended := Function.update lanes.ended work (some outcome) }
    else none

/-- No reaction is left to run. -/
def AtRest (lanes : SerialLanes Key Value Reason) : Prop :=
  lanes.calling = none ∧ lanes.promises.jobs = []

/-- A work that was called and has not ended. -/
def Running (lanes : SerialLanes Key Value Reason) (work : Work Key) : Prop :=
  work ∈ lanes.started ∧ lanes.ended work = none

theorem step_turn {lanes next : SerialLanes Key Value Reason}
    (taken : step lanes .turn = some next) : ∃ reaction outcome rest, lanes.calling = none ∧
      lanes.promises.jobs = (reaction, outcome) :: rest ∧
      next = ({ lanes with promises := { lanes.promises with jobs := rest } }).react reaction
        outcome := by
  simp only [step] at taken
  split at taken
  · rename_i reaction outcome rest idle jobs
    exact ⟨reaction, outcome, rest, idle, jobs, (Option.some.inj taken).symm⟩
  · cases taken

end SerialLanes

end Senars.Async
