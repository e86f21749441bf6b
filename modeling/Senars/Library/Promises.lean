/-
This file is about promises and the jobs their reactions become. A reaction to a
promise waits until the promise settles, and is then a job with what it settled
with; jobs run one at a time, the oldest first.

Where each reaction is to one promise, the ones that wait are those whose promise is
unsettled. Nothing that settles adds a reaction or loses one.
-/

import Mathlib.Data.List.Basic
import Mathlib.Data.List.Perm.Basic
import Mathlib.Logic.Function.Basic

namespace Senars.Library

/-- How a promise settles; a value that is missing is `undefined`. -/
inductive Settlement (Value Reason : Type) where
  | fulfilled (value : Option Value)
  | rejected (reason : Reason)
  deriving DecidableEq

/-- Promises by their names, the reactions that wait for one, and the jobs. -/
structure Promises (Name Reaction Value Reason : Type) where
  outcome : Name → Option (Settlement Value Reason)
  waiting : List (Name × Reaction)
  jobs : List (Reaction × Settlement Value Reason)

namespace Promises

variable {Name Reaction Value Reason : Type}

/-- `promise.then(reaction)`. -/
def subscribe (promises : Promises Name Reaction Value Reason) (name : Name)
    (reaction : Reaction) : Promises Name Reaction Value Reason :=
  match promises.outcome name with
  | none => { promises with waiting := promises.waiting ++ [(name, reaction)] }
  | some outcome => { promises with jobs := promises.jobs ++ [(reaction, outcome)] }

/-- Fulfill or reject a promise, unless it has settled. -/
def settle [DecidableEq Name] (promises : Promises Name Reaction Value Reason) (name : Name)
    (outcome : Settlement Value Reason) : Promises Name Reaction Value Reason :=
  match promises.outcome name with
  | none =>
    { outcome := Function.update promises.outcome name (some outcome)
      waiting := promises.waiting.filter (·.1 ≠ name)
      jobs := promises.jobs ++
        (promises.waiting.filter (·.1 = name)).map fun (_, reaction) => (reaction, outcome) }
  | some _ => promises

/-- Put a job of its own behind the others. -/
def enqueue (promises : Promises Name Reaction Value Reason) (reaction : Reaction)
    (outcome : Settlement Value Reason) : Promises Name Reaction Value Reason :=
  { promises with jobs := promises.jobs ++ [(reaction, outcome)] }

/-- All reactions that have not run, whether they wait or are jobs. -/
def pending (promises : Promises Name Reaction Value Reason) : List Reaction :=
  promises.waiting.map Prod.snd ++ promises.jobs.map Prod.fst

/-- Each reaction waits for its own promise while that is unsettled, and is otherwise a job with
what the promise settled with. -/
structure Attached (source : Reaction → Name) (promises : Promises Name Reaction Value Reason) :
    Prop where
  waits : ∀ name reaction, (name, reaction) ∈ promises.waiting →
    name = source reaction ∧ promises.outcome name = none
  runs : ∀ reaction outcome, (reaction, outcome) ∈ promises.jobs →
    promises.outcome (source reaction) = some outcome

variable {promises : Promises Name Reaction Value Reason} {source : Reaction → Name}

/-! ### Reactions that have not run -/

theorem pending_enqueue (promises : Promises Name Reaction Value Reason)
    (reaction : Reaction) (outcome : Settlement Value Reason) :
    (promises.enqueue reaction outcome).pending.Perm (reaction :: promises.pending) := by
  show (_ ++ List.map _ (_ ++ [_])).Perm _
  rw [List.map_append, ← List.append_assoc]
  exact List.perm_append_singleton _ _

variable {reaction : Reaction} {outcome : Settlement Value Reason}
  {rest : List (Reaction × Settlement Value Reason)}

theorem pending_of_jobs (next : promises.jobs = (reaction, outcome) :: rest) :
    promises.pending.Perm (reaction :: ({ promises with jobs := rest } :
      Promises Name Reaction Value Reason).pending) := by
  unfold pending
  rw [next]
  exact List.perm_middle

theorem mem_pending_of_jobs (next : promises.jobs = (reaction, outcome) :: rest)
    (once : promises.pending.Nodup) (other : Reaction) :
    other ∈ ({ promises with jobs := rest } : Promises Name Reaction Value Reason).pending ↔
      other ≠ reaction ∧ other ∈ promises.pending := by
  have perm := pending_of_jobs next
  obtain ⟨absent, -⟩ := List.nodup_cons.mp (perm.nodup_iff.mp once)
  rw [perm.mem_iff, List.mem_cons]
  constructor
  · exact fun isThere => ⟨fun same => absent (same ▸ isThere), .inr isThere⟩
  · rintro ⟨differs, same | isThere⟩
    · exact absurd same differs
    · exact isThere

theorem Attached.mem_jobs (attached : promises.Attached source)
    (isPending : reaction ∈ promises.pending)
    (isSettled : promises.outcome (source reaction) = some outcome) :
    (reaction, outcome) ∈ promises.jobs := by
  rcases List.mem_append.mp isPending with waits | runs
  · obtain ⟨⟨name, _⟩, isWaiting, rfl⟩ := List.mem_map.mp waits
    obtain ⟨rfl, unsettled⟩ := attached.waits _ _ isWaiting
    cases isSettled.symm.trans unsettled
  · obtain ⟨⟨_, other⟩, isJob, rfl⟩ := List.mem_map.mp runs
    cases isSettled.symm.trans (attached.runs _ _ isJob)
    exact isJob

theorem Attached.unsettled (attached : promises.Attached source)
    (isPending : reaction ∈ promises.pending) (noJobs : promises.jobs = []) :
    promises.outcome (source reaction) = none := by
  cases isSettled : promises.outcome (source reaction) with
  | none => rfl
  | some outcome =>
    have isJob := attached.mem_jobs isPending isSettled
    rw [noJobs] at isJob
    cases isJob

theorem Attached.of_jobs (attached : promises.Attached source)
    (next : promises.jobs = (reaction, outcome) :: rest) :
    ({ promises with jobs := rest } : Promises Name Reaction Value Reason).Attached source where
  waits := attached.waits
  runs := fun other result isJob =>
    attached.runs other result (next ▸ List.mem_cons_of_mem _ isJob)

theorem Attached.enqueue (attached : promises.Attached source) {reaction outcome}
    (isSettled : promises.outcome (source reaction) = some outcome) :
    (promises.enqueue reaction outcome).Attached source where
  waits := attached.waits
  runs := fun other result isJob => by
    rcases List.mem_append.mp isJob with old | new
    · exact attached.runs other result old
    · obtain ⟨rfl, rfl⟩ := Prod.mk.inj (List.mem_singleton.mp new)
      exact isSettled

/-! ### Subscribing -/

@[simp]
theorem outcome_subscribe (name : Name) (reaction : Reaction) :
    (promises.subscribe name reaction).outcome = promises.outcome := by
  unfold subscribe
  split <;> rfl

theorem pending_subscribe (promises : Promises Name Reaction Value Reason) (name : Name)
    (reaction : Reaction) :
    (promises.subscribe name reaction).pending.Perm (reaction :: promises.pending) := by
  unfold subscribe
  split
  · show (List.map _ (_ ++ [_]) ++ _).Perm _
    rw [List.map_append, List.append_assoc]
    exact List.perm_middle
  · exact pending_enqueue promises reaction _

theorem Attached.subscribe (attached : promises.Attached source) {name reaction}
    (own : promises.outcome name = none → name = source reaction)
    (same : promises.outcome name = promises.outcome (source reaction)) :
    (promises.subscribe name reaction).Attached source := by
  unfold Promises.subscribe
  split
  · rename_i unsettled
    refine ⟨fun other waiter isWaiting => ?_, attached.runs⟩
    rcases List.mem_append.mp isWaiting with old | new
    · exact attached.waits other waiter old
    · obtain ⟨rfl, rfl⟩ := Prod.mk.inj (List.mem_singleton.mp new)
      exact ⟨own unsettled, unsettled⟩
  · rename_i outcome isSettled
    exact attached.enqueue (same ▸ isSettled)

/-! ### Settling -/

variable [DecidableEq Name]

theorem outcome_settle (promises : Promises Name Reaction Value Reason) {name}
    (unsettled : promises.outcome name = none) (outcome : Settlement Value Reason) :
    (promises.settle name outcome).outcome =
      Function.update promises.outcome name (some outcome) := by
  unfold settle
  rw [unsettled]

theorem pending_settle (promises : Promises Name Reaction Value Reason) (name : Name)
    (outcome : Settlement Value Reason) :
    (promises.settle name outcome).pending.Perm promises.pending := by
  unfold settle
  split
  · have split := List.filter_append_perm (fun waiter : Name × Reaction => decide (waiter.1 = name))
      promises.waiting
    have moved : (promises.waiting.filter fun waiter => !decide (waiter.1 = name)) =
        promises.waiting.filter (·.1 ≠ name) := by
      simp
    rw [moved] at split
    show (List.map _ _ ++ List.map _ (_ ++ List.map _ _)).Perm _
    rw [List.map_append, List.map_map]
    refine List.Perm.trans ?_ ((split.map Prod.snd).append_right _)
    rw [List.map_append, List.append_assoc]
    exact (List.perm_append_comm.append_left _).trans (List.perm_append_comm_assoc _ _ _)
  · exact .refl _

theorem Attached.settle (attached : promises.Attached source) (name : Name)
    (outcome : Settlement Value Reason) : (promises.settle name outcome).Attached source := by
  unfold Promises.settle
  split
  · rename_i unsettled
    refine ⟨fun other reaction isWaiting => ?_, fun reaction result isJob => ?_⟩
    · obtain ⟨old, differs⟩ := List.mem_filter.mp isWaiting
      obtain ⟨own, pending⟩ := attached.waits other reaction old
      exact ⟨own, (Function.update_of_ne (of_decide_eq_true differs) _ _).trans pending⟩
    · rcases List.mem_append.mp isJob with old | new
      · have ran := attached.runs reaction result old
        refine (Function.update_of_ne (fun same => ?_) _ _).trans ran
        rw [same, unsettled] at ran
        cases ran
      · obtain ⟨⟨other, waiter⟩, isWaiting, same⟩ := List.mem_map.mp new
        obtain ⟨rfl, rfl⟩ := Prod.mk.inj same
        obtain ⟨old, isOwn⟩ := List.mem_filter.mp isWaiting
        obtain ⟨own, -⟩ := attached.waits other waiter old
        have isName : source waiter = name := own.symm.trans (of_decide_eq_true isOwn)
        rw [isName]
        exact Function.update_self _ _ _
  · exact attached

end Promises

end Senars.Library
