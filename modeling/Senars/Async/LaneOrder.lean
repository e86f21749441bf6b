/-
This file is what serial lanes promise, of every run of submissions, jobs and works that
end in any order. The works of a key start in the order they were submitted in, one at a
time, and a caller is told how its own work ended. Once the reactions have run, a work
that has not started is behind one of its own key that has not ended, and a lane whose
works have all ended has no entry.

The reactions do run out: each leads to fewer that are left, in the measure of how many
may still follow from it.
-/

import Mathlib.Algebra.Order.Field.Rat
import Senars.Async.LaneStages

namespace Senars.Async

open Library

variable {Key Value Reason : Type}

namespace SerialLanes

/-! ### Reactions run out -/

/-- How many reactions may still run for one that has not. -/
def reactionWeight : Reaction Key → ℕ
  | .call _ => 4
  | .adopt _ => 2
  | .resolve _ | .release _ | .drop _ => 1

/-- How many reactions may still run for those that have not. -/
def reactionsLeft (promises : Promises (Promised Key) (Reaction Key) Value Reason) : ℕ :=
  (promises.pending.map reactionWeight).sum

section

variable (promises : Promises (Promised Key) (Reaction Key) Value Reason)

theorem reactionsLeft_settle [DecidableEq Key] (promise : Promised Key)
    (outcome : Settlement Value Reason) :
    reactionsLeft (promises.settle promise outcome) = reactionsLeft promises :=
  ((Promises.pending_settle promises promise outcome).map reactionWeight).sum_nat

theorem reactionsLeft_subscribe (promise : Promised Key) (reaction : Reaction Key) :
    reactionsLeft (promises.subscribe promise reaction) =
      reactionWeight reaction + reactionsLeft promises :=
  ((Promises.pending_subscribe promises promise reaction).map reactionWeight).sum_nat

theorem reactionsLeft_enqueue (reaction : Reaction Key) (outcome : Settlement Value Reason) :
    reactionsLeft (promises.enqueue reaction outcome) =
      reactionWeight reaction + reactionsLeft promises :=
  ((Promises.pending_enqueue promises reaction outcome).map reactionWeight).sum_nat

variable {promises} in
theorem reactionsLeft_of_jobs {reaction outcome rest}
    (next : promises.jobs = (reaction, outcome) :: rest) :
    reactionsLeft promises =
      reactionWeight reaction + reactionsLeft { promises with jobs := rest } :=
  ((Promises.pending_of_jobs next).map reactionWeight).sum_nat

end

variable [DecidableEq Key]

/-- How many reactions may still run, if no work is submitted and none ends. -/
def weight (lanes : SerialLanes Key Value Reason) : ℕ :=
  reactionsLeft lanes.promises + if lanes.calling.isSome then 3 else 0

/-- A job runs, or a work that is being called returns or throws. -/
def LaneEvent.Reacts : LaneEvent Key Value Reason → Prop
  | turn | returned | threw _ => True
  | submit _ | ended _ _ => False

variable {lanes next : SerialLanes Key Value Reason} {event : LaneEvent Key Value Reason}
  {events : List (LaneEvent Key Value Reason)}

theorem weight_react (lanes : SerialLanes Key Value Reason) (idle : lanes.calling = none)
    (reaction : Reaction Key) (outcome : Settlement Value Reason) :
    (lanes.react reaction outcome).weight < reactionWeight reaction + lanes.weight := by
  have here : lanes.weight = reactionsLeft lanes.promises := by
    unfold weight
    rw [idle]
    rfl
  have unchanged : ∀ promises : Promises (Promised Key) (Reaction Key) Value Reason,
      weight { lanes with promises := promises } = reactionsLeft promises := by
    intro promises
    rw [idle]
    rfl
  rw [here]
  cases reaction with
  | call work =>
    cases outcome with
    | fulfilled value =>
      show reactionsLeft lanes.promises + 3 < 4 + _
      omega
    | rejected reason =>
      refine (unchanged _).trans_lt ?_
      rw [reactionsLeft_settle]
      show _ < 4 + _
      omega
  | adopt work =>
    refine (unchanged _).trans_lt ?_
    rw [reactionsLeft_subscribe]
    show 1 + _ < 2 + _
    omega
  | resolve work =>
    refine (unchanged _).trans_lt ?_
    rw [reactionsLeft_settle]
    exact Nat.lt_add_of_pos_left Nat.one_pos
  | release work =>
    refine (unchanged _).trans_lt ?_
    rw [reactionsLeft_settle]
    exact Nat.lt_add_of_pos_left Nat.one_pos
  | drop work =>
    have same : (lanes.react (.drop work) outcome).weight = reactionsLeft lanes.promises := by
      show weight (if lanes.tails.get work.key = some (.tail work) then _ else _) = _
      split
      · exact here
      · exact here
    rw [same]
    exact Nat.lt_add_of_pos_left Nat.one_pos

theorem weight_step (taken : step lanes event = some next) (reacts : event.Reacts) :
    next.weight < lanes.weight := by
  cases event with
  | submit key => exact reacts.elim
  | ended work outcome => exact reacts.elim
  | turn =>
    obtain ⟨reaction, outcome, rest, idle, jobs, rfl⟩ := step_turn taken
    have less := weight_react { lanes with promises := { lanes.promises with jobs := rest } } idle
      reaction outcome
    refine less.trans_eq ?_
    unfold weight
    rw [reactionsLeft_of_jobs jobs, Nat.add_assoc]
  | returned =>
    obtain ⟨work, isCalled, rfl⟩ := Option.map_eq_some_iff.mp taken
    unfold weight
    rw [reactionsLeft_enqueue, isCalled]
    show 2 + _ + 0 < _ + 3
    omega
  | threw reason =>
    obtain ⟨work, isCalled, thrown⟩ := Option.bind_eq_some_iff.mp taken
    split at thrown
    · cases thrown
      unfold weight
      rw [reactionsLeft_settle, isCalled]
      show _ + 0 < _ + 3
      omega
    · cases thrown

theorem length_le_weight (run : Run step lanes events next)
    (react : ∀ event ∈ events, event.Reacts) :
    events.length ≤ lanes.weight := by
  induction run with
  | nil => exact Nat.zero_le _
  | cons taken _ ih =>
    obtain ⟨reacts, later⟩ := List.forall_mem_cons.mp react
    have less := weight_step taken reacts
    have rest := ih later
    rw [List.length_cons]
    omega

theorem exists_atRest (lanes : SerialLanes Key Value Reason) :
    ∃ events rested, (∀ event ∈ events, event.Reacts) ∧ Run step lanes events rested ∧
      rested.AtRest := by
  induction count : lanes.weight using Nat.strongRecOn generalizing lanes with
  | ind count ih =>
    have continues : ∀ {event : LaneEvent Key Value Reason} {next},
        step lanes event = some next → event.Reacts →
        ∃ events rested, (∀ event ∈ events, event.Reacts) ∧ Run step lanes events rested ∧
          rested.AtRest := by
      intro event next taken reacts
      obtain ⟨events, rested, later, run, atRest⟩ :=
        ih next.weight (count ▸ weight_step taken reacts) next rfl
      exact ⟨event :: events, rested, List.forall_mem_cons.mpr ⟨reacts, later⟩, .cons taken run,
        atRest⟩
    cases isCalled : lanes.calling with
    | some work =>
      have returns : step lanes .returned = some { lanes with
          promises := lanes.promises.enqueue (.adopt work) (.fulfilled none)
          calling := none } := by
        show lanes.calling.map _ = _
        rw [isCalled]
        rfl
      exact continues returns trivial
    | none =>
      cases jobs : lanes.promises.jobs with
      | nil => exact ⟨[], lanes, fun _ none => absurd none List.not_mem_nil, .nil _, isCalled, jobs⟩
      | cons job rest =>
        have turns : step lanes .turn =
            some (({ lanes with promises := { lanes.promises with jobs := rest } }).react job.1
              job.2) := by
          simp only [step, isCalled, jobs]
        exact continues turns trivial

/-! ### At rest -/

variable {stage : Work Key → Stage}

variable {key : Key} {number : ℕ}

theorem Staged.freed_of_lt (staged : Staged lanes stage) {later}
    (begun : (stage ⟨key, later⟩).begun = true) (before : number < later) :
    (stage ⟨key, number⟩).freed = true := by
  induction later with
  | zero => exact absurd before (Nat.not_lt_zero number)
  | succ last ih =>
    have freed := staged.order key last begun
    rcases Nat.lt_succ_iff_lt_or_eq.mp before with earlier | rfl
    · exact ih (Stage.begun_of_freed freed) earlier
    · exact freed

theorem Staged.ended_of_lt (staged : Staged lanes stage) {later}
    (isStarted : ⟨key, later⟩ ∈ lanes.started) (before : number < later) :
    lanes.ended ⟨key, number⟩ ≠ none := by
  have begun := (staged.mem_started_iff _).mp isStarted
  exact staged.told _ (Stage.told_of_freed (staged.freed_of_lt begun before))

theorem Staged.atRest (staged : Staged lanes stage) (rests : lanes.AtRest) (work : Work Key) :
    stage work = .unborn ∨ stage work = .waiting ∨
      stage work = .followed ∧ lanes.ended work = none ∨ stage work = .done := by
  obtain ⟨idle, noJobs⟩ := rests
  have unsettled : ∀ reaction : Reaction Key, reaction.liveAt (stage reaction.work) = true →
      lanes.promises.outcome reaction.source = none := fun reaction isLive =>
    staged.attached.unsettled ((staged.live reaction).mpr isLive) noJobs
  cases reached : stage work with
  | unborn => exact .inl rfl
  | waiting => exact .inr (.inl rfl)
  | called => cases idle.symm.trans ((staged.calling work).mpr reached)
  | returned =>
    have none := unsettled (.adopt work) (decide_eq_true reached)
    cases none.symm.trans staged.idle
  | followed =>
    have none := unsettled (.resolve work) (decide_eq_true reached)
    refine .inr (.inr (.inl ⟨rfl, ?_⟩))
    exact (staged.returned work (by rw [reached]; rfl)).symm.trans none
  | settled =>
    have isNone := unsettled (.release work)
      (by simp [Reaction.liveAt, Reaction.work, reached, Stage.freed])
    have told : (stage work).told = true := by rw [reached]; rfl
    have asEnded := staged.settled work
    rw [if_pos told] at asEnded
    exact absurd (asEnded.symm.trans isNone) (staged.told work told)
  | released =>
    have isNone := unsettled (.drop work) (by simp [Reaction.liveAt, Reaction.work, reached])
    have freed := staged.tail work
    rw [reached] at freed
    cases isNone.symm.trans freed
  | done => exact .inr (.inr (.inr rfl))

theorem Staged.exists_running (staged : Staged lanes stage) (rests : lanes.AtRest)
    (isWaiting : stage ⟨key, number⟩ = .waiting) :
    ∃ earlier < number, lanes.Running ⟨key, earlier⟩ := by
  induction number with
  | zero =>
    have isLive : (Reaction.call ⟨key, 0⟩ : Reaction Key).liveAt (stage ⟨key, 0⟩) = true :=
      decide_eq_true isWaiting
    have isNone := staged.attached.unsettled ((staged.live (.call ⟨key, 0⟩)).mpr isLive) rests.2
    cases isNone.symm.trans staged.idle
  | succ number ih =>
    have isLive : (Reaction.call ⟨key, number + 1⟩ : Reaction Key).liveAt
        (stage ⟨key, number + 1⟩) = true := decide_eq_true isWaiting
    have isNone := staged.attached.unsettled
      ((staged.live (.call ⟨key, number + 1⟩)).mpr isLive) rests.2
    have tail := staged.tail ⟨key, number⟩
    rcases staged.atRest rests ⟨key, number⟩ with unborn | waits | ⟨followed, unended⟩ | done
    · have unborn' := (staged.unborn ⟨key, number⟩).mp unborn
      have later := (staged.unborn ⟨key, number + 1⟩).mpr (Nat.le_succ_of_le unborn')
      rw [isWaiting] at later
      cases later
    · obtain ⟨earlier, before, running⟩ := ih waits
      exact ⟨earlier, Nat.lt_succ_of_lt before, running⟩
    · refine ⟨number, Nat.lt_succ_self number, (staged.mem_started_iff _).mpr ?_, unended⟩
      rw [followed]
      rfl
    · rw [done] at tail
      cases isNone.symm.trans tail

/-! ### What the lanes promise -/

/-- What holds of the lanes at any time: the works of a key have started in order and one at a
time, a caller is told how its own work ended, a lane with a work whose caller was not told has an
entry, and the reactions that are left run out. -/
structure Serial (lanes : SerialLanes Key Value Reason) : Prop where
  inOrder : ∀ key, ∃ count ≤ lanes.submitted key,
    lanes.started.filter (·.key = key) = (List.range count).map (Work.mk key)
  behind : ∀ key number later, ⟨key, later⟩ ∈ lanes.started → number < later →
    lanes.ended ⟨key, number⟩ ≠ none
  alone : ∀ first second, lanes.Running first → lanes.Running second → first.key = second.key →
    first = second
  ownOutcome : ∀ work outcome, lanes.promises.outcome (.settled work) = some outcome →
    lanes.ended work = some outcome
  kept : ∀ work, work.number < lanes.submitted work.key →
    lanes.promises.outcome (.settled work) = none → lanes.tails.get work.key ≠ none
  runOut : ∀ events next, (∀ event ∈ events, LaneEvent.Reacts event) →
    Run step lanes events next → events.length ≤ lanes.weight
  comesToRest : ∃ events rested, (∀ event ∈ events, LaneEvent.Reacts event) ∧
    Run step lanes events rested ∧ rested.AtRest

/-- What holds once the reactions have run: a caller whose work has ended was told so, a work that
has not started is behind a work of its own key that has not ended, and a lane whose works have all
ended has no entry. -/
structure Rested (lanes : SerialLanes Key Value Reason) : Prop where
  told : ∀ work, lanes.promises.outcome (.settled work) = lanes.ended work
  noWait : ∀ key number, number < lanes.submitted key → ⟨key, number⟩ ∉ lanes.started →
    ∃ earlier < number, lanes.Running ⟨key, earlier⟩
  dropped : ∀ key, (∀ number < lanes.submitted key, lanes.ended ⟨key, number⟩ ≠ none) →
    lanes.tails.get key = none

theorem Staged.serial (staged : Staged lanes stage) : lanes.Serial where
  inOrder := fun key => by
    obtain ⟨count, isRange, counted⟩ := staged.started key
    refine ⟨count, ?_, isRange⟩
    by_contra more
    have begun := (counted (lanes.submitted key)).mpr (Nat.lt_of_not_le more)
    rw [(staged.unborn ⟨key, lanes.submitted key⟩).mpr (Nat.le_refl _)] at begun
    cases begun
  behind := fun _ _ _ isStarted before => staged.ended_of_lt isStarted before
  alone := by
    rintro ⟨key, first⟩ ⟨other, second⟩ ⟨isFirst, unended⟩ ⟨isSecond, unended'⟩ rfl
    rcases Nat.lt_trichotomy first second with before | same | after
    · exact absurd unended (staged.ended_of_lt isSecond before)
    · exact congrArg (Work.mk key) same
    · exact absurd unended' (staged.ended_of_lt isFirst after)
  ownOutcome := fun work outcome isOutcome => by
    have asEnded := isOutcome.symm.trans (staged.settled work)
    split at asEnded
    · exact asEnded.symm
    · cases asEnded
  kept := by
    rintro ⟨key, number⟩ isSubmitted unsettled noEntry
    have isSubmitted : number < lanes.submitted key := isSubmitted
    obtain ⟨last, count⟩ : ∃ last, lanes.submitted key = last + 1 :=
      ⟨lanes.submitted key - 1, by omega⟩
    have isDone : stage ⟨key, last⟩ = .done := by
      by_contra undone
      have entry := (staged.entry key _).mpr ⟨last, count, rfl, undone⟩
      cases entry.symm.trans noEntry
    have freed : (stage ⟨key, number⟩).freed = true := by
      rcases Nat.lt_or_eq_of_le (show number ≤ last by omega) with before | rfl
      · refine staged.freed_of_lt ?_ before
        rw [isDone]
        rfl
      · rw [isDone]
        rfl
    have told := Stage.told_of_freed freed
    have asEnded := staged.settled ⟨key, number⟩
    rw [if_pos told] at asEnded
    exact staged.told _ told (asEnded.symm.trans unsettled)
  runOut := fun _ _ react run => length_le_weight run react
  comesToRest := exists_atRest lanes

theorem Staged.rested (staged : Staged lanes stage) (rests : lanes.AtRest) : lanes.Rested where
  told := fun work => by
    rw [staged.settled work]
    have unbegun : (stage work).begun = false → lanes.ended work = none := fun unbegun => by
      by_contra ended
      cases unbegun.symm.trans (staged.ended work ended)
    rcases staged.atRest rests work with reached | reached | ⟨reached, unended⟩ | reached
    · rw [if_neg (by rw [reached]; exact Bool.false_ne_true), unbegun (by rw [reached]; rfl)]
    · rw [if_neg (by rw [reached]; exact Bool.false_ne_true), unbegun (by rw [reached]; rfl)]
    · rw [if_neg (by rw [reached]; exact Bool.false_ne_true), unended]
    · rw [if_pos (by rw [reached]; rfl)]
  noWait := fun key number isSubmitted unstarted => by
    have unbegun := fun begun => unstarted ((staged.mem_started_iff ⟨key, number⟩).mpr begun)
    rcases staged.atRest rests ⟨key, number⟩ with reached | reached | ⟨reached, -⟩ | reached
    · have absent := (staged.unborn ⟨key, number⟩).mp reached
      exact absurd isSubmitted (Nat.not_lt_of_le absent)
    · exact staged.exists_running rests reached
    · exact absurd (by rw [reached]; rfl) unbegun
    · exact absurd (by rw [reached]; rfl) unbegun
  dropped := fun key allEnded => by
    cases isTail : lanes.tails.get key with
    | none => rfl
    | some promise =>
      obtain ⟨number, count, -, undone⟩ := (staged.entry key promise).mp isTail
      have ended := allEnded number (by omega)
      have begun := staged.ended _ ended
      rcases staged.atRest rests ⟨key, number⟩ with reached | reached | ⟨-, unended⟩ | reached
      · rw [reached] at begun
        cases begun
      · rw [reached] at begun
        cases begun
      · exact absurd unended ended
      · exact absurd reached undone

/-- Whatever is submitted, and in whatever order works end, the works of a key start in the order
they were submitted in and one at a time, each caller is told how its own work ended, no work waits
for one of another key, and a lane that is through has no entry. -/
theorem serial_of_run (run : Run step ({} : SerialLanes Key Value Reason) events lanes) :
    lanes.Serial ∧ (lanes.AtRest → lanes.Rested) := by
  obtain ⟨stage, staged⟩ := staged_of_run run
  exact ⟨staged.serial, staged.rested⟩

/-- Two works of one key and one of another, of which the first is rejected. -/
def rejectedFirst : List (LaneEvent ℕ ℕ String) :=
  [.submit 0, .submit 0, .submit 1, .turn, .returned, .turn, .returned,
    .ended ⟨0, 0⟩ (.rejected "down"), .turn, .turn]

theorem serial_of_run_rejectedFirst :
    ∃ lanes, execute step ({} : SerialLanes ℕ ℕ String) rejectedFirst = some lanes ∧
      lanes.Serial ∧ (lanes.AtRest → lanes.Rested) := by
  have canRun : (execute step ({} : SerialLanes ℕ ℕ String) rejectedFirst).isSome = true := rfl
  obtain ⟨lanes, done⟩ := Option.isSome_iff_exists.mp canRun
  exact ⟨lanes, done, serial_of_run (run_of_execute done)⟩

end SerialLanes

end Senars.Async
