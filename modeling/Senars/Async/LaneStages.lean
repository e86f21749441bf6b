/-
This file follows the works of serial lanes through their stages: a work waits, is
called, has returned its promise, has settled, and is released to let the next one
start. What each stage says of the reactions and promises of a work, and how the
stages of a lane go together, every event keeps.
-/

import Senars.Async.SerialLanes

namespace Senars.Async

open Library

namespace SerialLanes

/-! ### Stages -/

/-- How far a work has come. -/
inductive Stage where
  | unborn | waiting | called | returned | followed | settled | released | done
  deriving DecidableEq

/-- Whether the work was called. -/
def Stage.begun : Stage → Bool
  | unborn | waiting => false
  | _ => true

/-- Whether its caller was told how it ended. -/
def Stage.told : Stage → Bool
  | settled | released | done => true
  | _ => false

/-- Whether the tail behind it has settled. -/
def Stage.freed : Stage → Bool
  | released | done => true
  | _ => false

theorem Stage.begun_of_freed {stage : Stage} (freed : stage.freed = true) : stage.begun = true := by
  cases stage <;> first | rfl | cases freed

theorem Stage.told_of_freed {stage : Stage} (freed : stage.freed = true) : stage.told = true := by
  cases stage <;> first | rfl | cases freed

end SerialLanes

namespace Reaction

variable {Key : Type}

def work : Reaction Key → Work Key
  | call work | adopt work | resolve work | release work | drop work => work

/-- The promise a reaction is to. -/
def source : Reaction Key → Promised Key
  | call ⟨_, 0⟩ | adopt _ => .idle
  | call ⟨key, before + 1⟩ => .tail ⟨key, before⟩
  | resolve work => .returned work
  | release work => .settled work
  | drop work => .tail work

/-- The stages in which a reaction has not run. -/
def liveAt (stage : SerialLanes.Stage) : Reaction Key → Bool
  | call _ => stage = .waiting
  | adopt _ => stage = .returned
  | resolve _ => stage = .followed
  | release _ => stage ≠ .unborn ∧ stage.freed = false
  | drop _ => stage ≠ .unborn ∧ stage ≠ .done

end Reaction

namespace SerialLanes

variable {Key Value Reason : Type} [DecidableEq Key]

/-- The works of the lanes are in their stages: what each stage says of the reactions and the
promises of a work, and how the stages of a lane go together. -/
structure Staged (lanes : SerialLanes Key Value Reason) (stage : Work Key → Stage) : Prop where
  attached : lanes.promises.Attached Reaction.source
  once : lanes.promises.pending.Nodup
  live : ∀ reaction, reaction ∈ lanes.promises.pending ↔
    reaction.liveAt (stage reaction.work) = true
  idle : lanes.promises.outcome .idle = some (.fulfilled none)
  tail : ∀ work, lanes.promises.outcome (.tail work) =
    if (stage work).freed then some (.fulfilled none) else none
  settled : ∀ work, lanes.promises.outcome (.settled work) =
    if (stage work).told then lanes.ended work else none
  returned : ∀ work, (stage work).told = false →
    lanes.promises.outcome (.returned work) = lanes.ended work
  ended : ∀ work, lanes.ended work ≠ none → (stage work).begun = true
  told : ∀ work, (stage work).told = true → lanes.ended work ≠ none
  unborn : ∀ work, stage work = .unborn ↔ lanes.submitted work.key ≤ work.number
  calling : ∀ work, lanes.calling = some work ↔ stage work = .called
  order : ∀ key number, (stage ⟨key, number + 1⟩).begun = true →
    (stage ⟨key, number⟩).freed = true
  started : ∀ key, ∃ count,
    lanes.started.filter (·.key = key) = (List.range count).map (Work.mk key) ∧
      ∀ number, (stage ⟨key, number⟩).begun = true ↔ number < count
  entry : ∀ key promise, lanes.tails.get key = some promise ↔
    ∃ number, lanes.submitted key = number + 1 ∧ promise = .tail ⟨key, number⟩ ∧
      stage ⟨key, number⟩ ≠ .done

theorem staged_empty : Staged ({} : SerialLanes Key Value Reason) fun _ => .unborn where
  attached := ⟨fun _ _ isWaiting => absurd isWaiting List.not_mem_nil,
    fun _ _ isJob => absurd isJob List.not_mem_nil⟩
  once := List.nodup_nil
  live := by
    rintro (_ | _ | _ | _ | _) <;> simp [Promises.pending, Reaction.liveAt]
  idle := rfl
  tail := fun _ => rfl
  settled := fun _ => rfl
  returned := fun _ _ => rfl
  ended := fun _ ended => absurd rfl ended
  told := fun _ told => absurd told (by decide)
  unborn := fun work => ⟨fun _ => Nat.zero_le _, fun _ => rfl⟩
  calling := by simp
  order := fun _ _ begun => absurd begun (by decide)
  started := fun _ => ⟨0, rfl, by simp [Stage.begun]⟩
  entry := by simp

section

variable {lanes : SerialLanes Key Value Reason} {stage : Work Key → Stage}

variable {later : Stage} {promises : Promises (Promised Key) (Reaction Key) Value Reason}

theorem update_view {Result : Type} {work} (view : Stage → Result)
    (same : view later = view (stage work)) (other : Work Key) :
    view (Function.update stage work later other) = view (stage other) := by
  by_cases own : other = work
  · rw [own, Function.update_self, same]
  · rw [Function.update_of_ne own]

section

variable (staged : Staged lanes stage)

include staged

theorem Staged.live_update {work} {pending : List (Reaction Key)}
    (own : ∀ reaction : Reaction Key, reaction.work = work →
      (reaction ∈ pending ↔ reaction.liveAt later = true))
    (others : ∀ reaction : Reaction Key, reaction.work ≠ work →
      (reaction ∈ pending ↔ reaction ∈ lanes.promises.pending)) (reaction : Reaction Key) :
    reaction ∈ pending ↔
      reaction.liveAt (Function.update stage work later reaction.work) = true := by
  by_cases same : reaction.work = work
  · rw [own reaction same, same, Function.update_self]
  · rw [others reaction same, Function.update_of_ne same]
    exact staged.live reaction

theorem Staged.order_update {work} (begins : later.begun = true → (stage work).begun = true ∨
      ∀ number, work.number = number + 1 → (stage ⟨work.key, number⟩).freed = true)
    (frees : (stage work).freed = true → later.freed = true) (key : Key) (number : ℕ)
    (begun : (Function.update stage work later ⟨key, number + 1⟩).begun = true) :
    (Function.update stage work later ⟨key, number⟩).freed = true := by
  have further : (stage ⟨key, number⟩).freed = true →
      (Function.update stage work later ⟨key, number⟩).freed = true := by
    intro freed
    by_cases same : (⟨key, number⟩ : Work Key) = work
    · subst same
      rw [Function.update_self]
      exact frees freed
    · rwa [Function.update_of_ne same]
  refine further ?_
  by_cases same : (⟨key, number + 1⟩ : Work Key) = work
  · subst same
    rw [Function.update_self] at begun
    rcases begins begun with already | before
    · exact staged.order key number already
    · exact before number rfl
  · rw [Function.update_of_ne same] at begun
    exact staged.order key number begun

theorem Staged.started_update {work} (same : later.begun = (stage work).begun) (key : Key) :
    ∃ count, lanes.started.filter (·.key = key) = (List.range count).map (Work.mk key) ∧
      ∀ number, (Function.update stage work later ⟨key, number⟩).begun = true ↔ number < count := by
  obtain ⟨count, isRange, counted⟩ := staged.started key
  refine ⟨count, isRange, fun number => ?_⟩
  rw [← counted]
  by_cases own : (⟨key, number⟩ : Work Key) = work
  · subst own
    rw [Function.update_self, same]
  · rw [Function.update_of_ne own]

theorem Staged.unborn_update {work} (born : stage work ≠ .unborn) (stays : later ≠ .unborn)
    (other : Work Key) :
    Function.update stage work later other = .unborn ↔
      lanes.submitted other.key ≤ other.number := by
  rw [← staged.unborn]
  exact iff_of_eq (update_view (· = .unborn) (by simp [born, stays]) other)

theorem Staged.ended_update {work} (begun : later.begun = true) (other : Work Key)
    (ended : lanes.ended other ≠ none) : (Function.update stage work later other).begun = true := by
  by_cases same : other = work
  · rw [same, Function.update_self, begun]
  · rw [Function.update_of_ne same]
    exact staged.ended other ended

theorem Staged.tail_update {work} (same : later.freed = (stage work).freed)
    (kept : ∀ other, promises.outcome (.tail other) = lanes.promises.outcome (.tail other))
    (other : Work Key) : promises.outcome (.tail other) =
      if (Function.update stage work later other).freed then some (.fulfilled none) else none := by
  rw [kept, update_view Stage.freed same]
  exact staged.tail other

theorem Staged.settled_update {work} (same : later.told = (stage work).told)
    (kept : ∀ other, promises.outcome (.settled other) = lanes.promises.outcome (.settled other))
    (other : Work Key) : promises.outcome (.settled other) =
      if (Function.update stage work later other).told then lanes.ended other else none := by
  rw [kept, update_view Stage.told same]
  exact staged.settled other

theorem Staged.returned_update {work} (same : later.told = (stage work).told)
    (kept : ∀ other, promises.outcome (.returned other) = lanes.promises.outcome (.returned other))
    (other : Work Key) (untold : (Function.update stage work later other).told = false) :
    promises.outcome (.returned other) = lanes.ended other := by
  rw [update_view Stage.told same] at untold
  rw [kept]
  exact staged.returned other untold

theorem Staged.told_update {work} (same : later.told = (stage work).told) (other : Work Key)
    (told : (Function.update stage work later other).told = true) : lanes.ended other ≠ none := by
  rw [update_view Stage.told same] at told
  exact staged.told other told

theorem Staged.entry_update {work} (undone : stage work ≠ .done) (stays : later ≠ .done)
    (key : Key) (promise : Promised Key) :
    lanes.tails.get key = some promise ↔ ∃ number, lanes.submitted key = number + 1 ∧
      promise = .tail ⟨key, number⟩ ∧ Function.update stage work later ⟨key, number⟩ ≠ .done := by
  rw [staged.entry]
  refine exists_congr fun number => and_congr_right fun _ => and_congr_right fun _ => ?_
  exact iff_of_eq (update_view (· ≠ .done) (by simp [undone, stays]) _).symm

theorem Staged.entry_drop {work} (isReleased : stage work = .released) (key : Key)
    (promise : Promised Key) :
    (if lanes.tails.get work.key = some (.tail work) then lanes.tails.delete work.key
        else lanes.tails).get key = some promise ↔
      ∃ number, lanes.submitted key = number + 1 ∧ promise = .tail ⟨key, number⟩ ∧
        Function.update stage work .done ⟨key, number⟩ ≠ .done := by
  by_cases own : key = work.key
  · subst own
    by_cases isLast : lanes.tails.get work.key = some (.tail work)
    · rw [if_pos isLast, OrderedMap.get_delete, if_pos rfl]
      refine iff_of_false (Option.some_ne_none promise).symm ?_
      rintro ⟨number, isNumber, -, undone⟩
      obtain ⟨last, isLastNumber, same, -⟩ := (staged.entry _ _).mp isLast
      obtain rfl : number = last := by omega
      rw [← Promised.tail.inj same, Function.update_self] at undone
      exact undone rfl
    · rw [if_neg isLast, staged.entry]
      refine exists_congr fun number => and_congr_right fun isNumber => and_congr_right fun _ => ?_
      rw [Function.update_of_ne]
      intro same
      refine isLast ((staged.entry _ _).mpr ⟨number, isNumber, ?_, ?_⟩)
      · rw [same]
      · rw [same, isReleased]
        exact Stage.noConfusion
  · have kept : (if lanes.tails.get work.key = some (.tail work) then
        lanes.tails.delete work.key else lanes.tails).get key = lanes.tails.get key := by
      split
      · rw [OrderedMap.get_delete, if_neg own]
      · rfl
    rw [kept, staged.entry]
    refine exists_congr fun number => and_congr_right fun _ => and_congr_right fun _ => ?_
    rw [Function.update_of_ne fun same => own (congrArg Work.key same)]

theorem Staged.calling_update {work} (uncalled : stage work ≠ .called) (stays : later ≠ .called)
    (other : Work Key) :
    lanes.calling = some other ↔ Function.update stage work later other = .called := by
  rw [staged.calling]
  exact iff_of_eq (update_view (· = .called) (by simp [uncalled, stays]) other).symm

theorem Staged.uncalled_update {work} (isCalled : lanes.calling = some work)
    (stays : later ≠ .called) (other : Work Key) :
    (none : Option (Work Key)) = some other ↔ Function.update stage work later other = .called := by
  refine iff_of_false (Option.some_ne_none other).symm fun called => ?_
  by_cases same : other = work
  · rw [same, Function.update_self] at called
    exact stays called
  · rw [Function.update_of_ne same] at called
    exact same (Option.some.inj (((staged.calling other).mpr called).symm.trans isCalled))

theorem Staged.started_call {work} (isWaiting : stage work = .waiting)
    (before : ∀ number, work.number = number + 1 → (stage ⟨work.key, number⟩).freed = true)
    (key : Key) :
    ∃ count, (lanes.started ++ [work]).filter (·.key = key) =
        (List.range count).map (Work.mk key) ∧
      ∀ number, (Function.update stage work .called ⟨key, number⟩).begun = true ↔
        number < count := by
  obtain ⟨count, isRange, counted⟩ := staged.started key
  by_cases own : work.key = key
  · subst own
    obtain ⟨key, number⟩ := work
    have isNext : number = count := by
      have waits : ¬ number < count := fun early => by
        have begun := (counted number).mpr early
        rw [isWaiting] at begun
        cases begun
      cases number with
      | zero => omega
      | succ previous =>
        have freed := before previous rfl
        have early := (counted previous).mp (Stage.begun_of_freed freed)
        omega
    subst isNext
    refine ⟨number + 1, ?_, fun other => ?_⟩
    · rw [List.filter_append, isRange, List.range_succ]
      simp
    · by_cases same : other = number
      · subst same
        rw [Function.update_self]
        exact iff_of_true rfl (Nat.lt_succ_self _)
      · rw [Function.update_of_ne (by simpa using same), counted]
        omega
  · refine ⟨count, ?_, fun number => ?_⟩
    · rw [List.filter_append, isRange]
      simp [own]
    · rw [Function.update_of_ne fun same => own (congrArg Work.key same).symm, counted]

theorem Staged.of_jobs {reaction outcome rest}
    (next : lanes.promises.jobs = (reaction, outcome) :: rest) :
    reaction.liveAt (stage reaction.work) = true ∧
      lanes.promises.outcome reaction.source = some outcome := by
  have isJob : (reaction, outcome) ∈ lanes.promises.jobs := next ▸ List.mem_cons_self
  refine ⟨(staged.live reaction).mp ?_, staged.attached.runs reaction outcome isJob⟩
  exact List.mem_append_right _ (List.mem_map.mpr ⟨_, isJob, rfl⟩)

theorem Staged.end_work {work} (begun : (stage work).begun = true)
    (unended : lanes.ended work = none) (outcome : Settlement Value Reason) :
    Staged { lanes with
      promises := lanes.promises.settle (.returned work) outcome
      ended := Function.update lanes.ended work (some outcome) } stage := by
  have untold : (stage work).told = false := by
    by_contra told
    exact staged.told work (by simpa using told) unended
  have settles := Promises.outcome_settle _ ((staged.returned work untold).trans unended) outcome
  have perm := Promises.pending_settle lanes.promises (.returned work) outcome
  refine { staged with
    attached := staged.attached.settle _ _
    once := perm.nodup_iff.mpr staged.once
    live := fun reaction => perm.mem_iff.trans (staged.live reaction)
    idle := ?_, tail := fun other => ?_, settled := fun other => ?_
    returned := fun other untold => ?_, ended := fun other ended => ?_
    told := fun other told => ?_ }
  · simpa [settles, Function.update_apply] using staged.idle
  · simpa [settles, Function.update_apply] using staged.tail other
  · have was := staged.settled other
    by_cases same : other = work
    · subst same
      simpa [settles, Function.update_apply, untold] using was
    · simpa [settles, Function.update_apply, same] using was
  · have was := staged.returned other untold
    by_cases same : other = work
    · simp [settles, same]
    · simpa [settles, Function.update_apply, same] using was
  · by_cases same : other = work
    · exact same ▸ begun
    · exact staged.ended other (by simpa [Function.update_apply, same] using ended)
  · by_cases same : other = work
    · simp [same]
    · simpa [Function.update_apply, same] using staged.told other told

end

theorem Staged.call (staged : Staged lanes stage) {work outcome rest}
    (next : lanes.promises.jobs = (.call work, outcome) :: rest) (idle : lanes.calling = none) :
    Staged { lanes with
      promises := { lanes.promises with jobs := rest }
      calling := some work
      started := lanes.started ++ [work] } (Function.update stage work .called) := by
  obtain ⟨isLive, fulfilled⟩ := staged.of_jobs next
  have isWaiting : stage work = .waiting := of_decide_eq_true isLive
  have gone := Promises.mem_pending_of_jobs next staged.once
  -- the job is there only once the work before this one is freed
  have before : ∀ number, work.number = number + 1 → (stage ⟨work.key, number⟩).freed = true := by
    intro number isNext
    obtain ⟨key, _⟩ := work
    subst isNext
    by_contra unfreed
    have unsettled := staged.tail ⟨key, number⟩
    rw [if_neg unfreed] at unsettled
    cases unsettled.symm.trans fulfilled
  exact {
    attached := staged.attached.of_jobs next
    once := (List.nodup_cons.mp ((Promises.pending_of_jobs next).nodup_iff.mp staged.once)).2
    live := by
      refine staged.live_update (fun reaction same => ?_) fun reaction differs => ?_
      · rw [gone, staged.live, same]
        cases reaction <;> simp_all [Reaction.liveAt, Reaction.work, Stage.freed]
      · rw [gone]
        exact and_iff_right fun same => differs (same ▸ rfl)
    idle := staged.idle
    tail := staged.tail_update (by rw [isWaiting]; rfl) fun _ => rfl
    settled := staged.settled_update (by rw [isWaiting]; rfl) fun _ => rfl
    returned := staged.returned_update (by rw [isWaiting]; rfl) fun _ => rfl
    ended := staged.ended_update rfl
    told := staged.told_update (by rw [isWaiting]; rfl)
    unborn := staged.unborn_update (by simp [isWaiting]) (by simp)
    calling := fun other => by
      have none : stage other ≠ .called := fun isCalled => by
        cases idle.symm.trans ((staged.calling other).mpr isCalled)
      by_cases same : other = work
      · simp [same]
      · simp [same, none, Ne.symm same]
    order := staged.order_update (fun _ => .inr before) (by rw [isWaiting]; exact id)
    started := staged.started_call isWaiting before
    entry := staged.entry_update (by simp [isWaiting]) (by simp) }

theorem Staged.adopt (staged : Staged lanes stage) {work outcome rest}
    (next : lanes.promises.jobs = (.adopt work, outcome) :: rest) :
    Staged { lanes with
      promises := { lanes.promises with jobs := rest }.subscribe (.returned work) (.resolve work) }
      (Function.update stage work .followed) := by
  obtain ⟨isLive, -⟩ := staged.of_jobs next
  have isReturned : stage work = .returned := of_decide_eq_true isLive
  have gone := Promises.mem_pending_of_jobs next staged.once
  have once := (List.nodup_cons.mp ((Promises.pending_of_jobs next).nodup_iff.mp staged.once)).2
  have perm := Promises.pending_subscribe { lanes.promises with jobs := rest }
    (.returned work) (.resolve work)
  have isNew : ¬ .resolve work ∈ lanes.promises.pending := by
    rw [staged.live]
    simp [Reaction.liveAt, Reaction.work, isReturned]
  exact {
    attached := (staged.attached.of_jobs next).subscribe (fun _ => rfl) rfl
    once := perm.nodup_iff.mpr (List.nodup_cons.mpr ⟨fun old => isNew ((gone _).mp old).2, once⟩)
    live := by
      refine staged.live_update (fun reaction same => ?_) fun reaction differs => ?_
      · rw [perm.mem_iff, List.mem_cons, gone, staged.live, same]
        cases reaction <;> simp_all [Reaction.liveAt, Reaction.work, Stage.freed]
      · rw [perm.mem_iff, List.mem_cons, gone]
        constructor
        · rintro (rfl | ⟨-, old⟩)
          · exact absurd rfl differs
          · exact old
        · exact fun old => .inr ⟨fun same => differs (same ▸ rfl), old⟩
    idle := by
      rw [Promises.outcome_subscribe]
      exact staged.idle
    tail := staged.tail_update (by rw [isReturned]; rfl) fun _ => by
      rw [Promises.outcome_subscribe]
    settled := staged.settled_update (by rw [isReturned]; rfl) fun _ => by
      rw [Promises.outcome_subscribe]
    returned := staged.returned_update (by rw [isReturned]; rfl) fun _ => by
      rw [Promises.outcome_subscribe]
    ended := staged.ended_update rfl
    told := staged.told_update (by rw [isReturned]; rfl)
    unborn := staged.unborn_update (by simp [isReturned]) (by simp)
    calling := staged.calling_update (by simp [isReturned]) (by simp)
    order := staged.order_update (by rw [isReturned]; exact .inl) (by rw [isReturned]; exact id)
    started := staged.started_update (by rw [isReturned]; rfl)
    entry := staged.entry_update (by simp [isReturned]) (by simp) }

theorem Staged.resolve (staged : Staged lanes stage) {work outcome rest}
    (next : lanes.promises.jobs = (.resolve work, outcome) :: rest) :
    Staged { lanes with
      promises := { lanes.promises with jobs := rest }.settle (.settled work) outcome }
      (Function.update stage work .settled) := by
  obtain ⟨isLive, isOutcome⟩ := staged.of_jobs next
  have isFollowed : stage work = .followed := of_decide_eq_true isLive
  have isEnd : lanes.ended work = some outcome :=
    (staged.returned work (by rw [isFollowed]; rfl)).symm.trans isOutcome
  have gone := Promises.mem_pending_of_jobs next staged.once
  have perm := Promises.pending_settle { lanes.promises with jobs := rest }
    (.settled work) outcome
  have unsettled := staged.settled work
  rw [if_neg (by rw [isFollowed]; simp [Stage.told])] at unsettled
  have settles := Promises.outcome_settle { lanes.promises with jobs := rest }
    unsettled outcome
  exact {
    attached := (staged.attached.of_jobs next).settle _ _
    once := perm.nodup_iff.mpr
      (List.nodup_cons.mp ((Promises.pending_of_jobs next).nodup_iff.mp staged.once)).2
    live := by
      refine staged.live_update (fun reaction same => ?_) fun reaction differs => ?_
      · rw [perm.mem_iff, gone, staged.live, same]
        cases reaction <;> simp_all [Reaction.liveAt, Reaction.work, Stage.freed]
      · rw [perm.mem_iff, gone]
        exact and_iff_right fun same => differs (same ▸ rfl)
    idle := by simpa [settles, Function.update_apply] using staged.idle
    tail := staged.tail_update (by rw [isFollowed]; rfl) fun _ => by simp [settles]
    settled := fun other => by
      rw [settles]
      by_cases same : other = work
      · subst same
        rw [Function.update_self, Function.update_self]
        exact isEnd.symm
      · rw [Function.update_of_ne (by simpa using same), Function.update_of_ne same]
        exact staged.settled other
    returned := fun other untold => by
      by_cases same : other = work
      · rw [same, Function.update_self] at untold
        cases untold
      · rw [Function.update_of_ne same] at untold
        simpa [settles, Function.update_apply] using staged.returned other untold
    ended := staged.ended_update rfl
    told := fun other told => by
      by_cases same : other = work
      · rw [same, isEnd]
        exact Option.some_ne_none _
      · rw [Function.update_of_ne same] at told
        exact staged.told other told
    unborn := staged.unborn_update (by simp [isFollowed]) (by simp)
    calling := staged.calling_update (by simp [isFollowed]) (by simp)
    order := staged.order_update (by rw [isFollowed]; exact .inl) fun _ => by simp_all [Stage.freed]
    started := staged.started_update (by rw [isFollowed]; rfl)
    entry := staged.entry_update (by simp [isFollowed]) (by simp) }

theorem Staged.release (staged : Staged lanes stage) {work outcome rest}
    (next : lanes.promises.jobs = (.release work, outcome) :: rest) :
    Staged { lanes with
      promises := { lanes.promises with jobs := rest }.settle (.tail work) (.fulfilled none) }
      (Function.update stage work .released) := by
  obtain ⟨isLive, isOutcome⟩ := staged.of_jobs next
  have isSettled : stage work = .settled := by
    have told := staged.settled work
    cases reached : stage work <;>
      simp_all [Reaction.liveAt, Reaction.work, Reaction.source, Stage.freed, Stage.told]
  have gone := Promises.mem_pending_of_jobs next staged.once
  have perm := Promises.pending_settle { lanes.promises with jobs := rest }
    (.tail work) (.fulfilled none)
  have unsettled := staged.tail work
  rw [if_neg (by rw [isSettled]; simp [Stage.freed])] at unsettled
  have settles := Promises.outcome_settle { lanes.promises with jobs := rest }
    unsettled (.fulfilled none)
  exact {
    attached := (staged.attached.of_jobs next).settle _ _
    once := perm.nodup_iff.mpr
      (List.nodup_cons.mp ((Promises.pending_of_jobs next).nodup_iff.mp staged.once)).2
    live := by
      refine staged.live_update (fun reaction same => ?_) fun reaction differs => ?_
      · rw [perm.mem_iff, gone, staged.live, same]
        cases reaction <;> simp_all [Reaction.liveAt, Reaction.work, Stage.freed]
      · rw [perm.mem_iff, gone]
        exact and_iff_right fun same => differs (same ▸ rfl)
    idle := by simpa [settles, Function.update_apply] using staged.idle
    tail := fun other => by
      rw [settles]
      by_cases same : other = work
      · subst same
        rw [Function.update_self, Function.update_self]
        rfl
      · rw [Function.update_of_ne (by simpa using same), Function.update_of_ne same]
        exact staged.tail other
    settled := staged.settled_update (by rw [isSettled]; rfl) fun _ => by simp [settles]
    returned := staged.returned_update (by rw [isSettled]; rfl) fun _ => by simp [settles]
    ended := staged.ended_update rfl
    told := staged.told_update (by rw [isSettled]; rfl)
    unborn := staged.unborn_update (by simp [isSettled]) (by simp)
    calling := staged.calling_update (by simp [isSettled]) (by simp)
    order := staged.order_update (by rw [isSettled]; exact .inl) fun _ => rfl
    started := staged.started_update (by rw [isSettled]; rfl)
    entry := staged.entry_update (by simp [isSettled]) (by simp) }

theorem Staged.drop (staged : Staged lanes stage) {work outcome rest}
    (next : lanes.promises.jobs = (.drop work, outcome) :: rest) :
    Staged (({ lanes with promises := { lanes.promises with jobs := rest } }).react (.drop work)
      outcome) (Function.update stage work .done) := by
  obtain ⟨isLive, isOutcome⟩ := staged.of_jobs next
  have isReleased : stage work = .released := by
    have freed := staged.tail work
    cases reached : stage work <;>
      simp_all [Reaction.liveAt, Reaction.work, Reaction.source, Stage.freed]
  have gone := Promises.mem_pending_of_jobs next staged.once
  have reacts : (({ lanes with promises := { lanes.promises with jobs := rest } }).react
      (.drop work) outcome) = { lanes with
        promises := { lanes.promises with jobs := rest }
        tails := if lanes.tails.get work.key = some (.tail work) then lanes.tails.delete work.key
          else lanes.tails } := by
    show (if lanes.tails.get work.key = some (.tail work) then _ else _) = _
    split <;> rfl
  rw [reacts]
  exact {
    attached := staged.attached.of_jobs next
    once := (List.nodup_cons.mp ((Promises.pending_of_jobs next).nodup_iff.mp staged.once)).2
    live := by
      refine staged.live_update (fun reaction same => ?_) fun reaction differs => ?_
      · rw [gone, staged.live, same]
        cases reaction <;> simp_all [Reaction.liveAt, Reaction.work, Stage.freed]
      · rw [gone]
        exact and_iff_right fun same => differs (same ▸ rfl)
    idle := staged.idle
    tail := staged.tail_update (by rw [isReleased]; rfl) fun _ => rfl
    settled := staged.settled_update (by rw [isReleased]; rfl) fun _ => rfl
    returned := staged.returned_update (by rw [isReleased]; rfl) fun _ => rfl
    ended := staged.ended_update rfl
    told := staged.told_update (by rw [isReleased]; rfl)
    unborn := staged.unborn_update (by simp [isReleased]) (by simp)
    calling := staged.calling_update (by simp [isReleased]) (by simp)
    order := staged.order_update (by rw [isReleased]; exact .inl) fun _ => rfl
    started := staged.started_update (by rw [isReleased]; rfl)
    entry := staged.entry_drop isReleased }

section

variable (staged : Staged lanes stage)

include staged

theorem Staged.return_work {work} (isCalled : lanes.calling = some work) :
    Staged { lanes with
      promises := lanes.promises.enqueue (.adopt work) (.fulfilled none)
      calling := none } (Function.update stage work .returned) := by
  have atCall : stage work = .called := (staged.calling work).mp isCalled
  have perm := Promises.pending_enqueue lanes.promises (.adopt work) (.fulfilled none)
  have isNew : ¬ .adopt work ∈ lanes.promises.pending := by
    rw [staged.live]
    simp [Reaction.liveAt, Reaction.work, atCall]
  exact {
    attached := staged.attached.enqueue staged.idle
    once := perm.nodup_iff.mpr (List.nodup_cons.mpr ⟨isNew, staged.once⟩)
    live := by
      refine staged.live_update (fun reaction same => ?_) fun reaction differs => ?_
      · rw [perm.mem_iff, List.mem_cons, staged.live, same]
        cases reaction <;> simp_all [Reaction.liveAt, Reaction.work, Stage.freed]
      · rw [perm.mem_iff, List.mem_cons]
        exact or_iff_right fun same => differs (same ▸ rfl)
    idle := staged.idle
    tail := staged.tail_update (by rw [atCall]; rfl) fun _ => rfl
    settled := staged.settled_update (by rw [atCall]; rfl) fun _ => rfl
    returned := staged.returned_update (by rw [atCall]; rfl) fun _ => rfl
    ended := staged.ended_update rfl
    told := staged.told_update (by rw [atCall]; rfl)
    unborn := staged.unborn_update (by simp [atCall]) (by simp)
    calling := staged.uncalled_update isCalled (by simp)
    order := staged.order_update (by rw [atCall]; exact .inl) (by rw [atCall]; exact id)
    started := staged.started_update (by rw [atCall]; rfl)
    entry := staged.entry_update (by simp [atCall]) (by simp) }

theorem Staged.throw_work {work} (isCalled : lanes.calling = some work)
    (unended : lanes.ended work = none) (reason : Reason) :
    Staged { lanes with
      promises := lanes.promises.settle (.settled work) (.rejected reason)
      calling := none
      ended := Function.update lanes.ended work (some (.rejected reason)) }
      (Function.update stage work .settled) := by
  have atCall : stage work = .called := (staged.calling work).mp isCalled
  have perm := Promises.pending_settle lanes.promises (.settled work)
    (.rejected reason)
  have unsettled := staged.settled work
  rw [if_neg (by rw [atCall]; simp [Stage.told])] at unsettled
  have settles := Promises.outcome_settle _ unsettled (.rejected reason)
  exact {
    attached := staged.attached.settle _ _
    once := perm.nodup_iff.mpr staged.once
    live := by
      refine staged.live_update (fun reaction same => ?_) fun reaction differs => ?_
      · rw [perm.mem_iff, staged.live, same]
        cases reaction <;> simp_all [Reaction.liveAt, Reaction.work, Stage.freed]
      · rw [perm.mem_iff]
    idle := by simpa [settles, Function.update_apply] using staged.idle
    tail := staged.tail_update (by rw [atCall]; rfl) fun _ => by simp [settles]
    settled := fun other => by
      rw [settles]
      by_cases same : other = work
      · subst same
        rw [Function.update_self, Function.update_self]
        exact (Function.update_self other _ lanes.ended).symm
      · rw [Function.update_of_ne same]
        simpa [Function.update_apply, same] using staged.settled other
    returned := fun other untold => by
      by_cases same : other = work
      · rw [same, Function.update_self] at untold
        cases untold
      · rw [Function.update_of_ne same] at untold
        simpa [settles, Function.update_apply, same] using staged.returned other untold
    ended := fun other ended => by
      by_cases same : other = work
      · rw [same, Function.update_self]
        rfl
      · rw [Function.update_of_ne same]
        exact staged.ended other (by simpa [Function.update_apply, same] using ended)
    told := fun other told => by
      by_cases same : other = work
      · simp [same]
      · rw [Function.update_of_ne same] at told
        simpa [Function.update_apply, same] using staged.told other told
    unborn := staged.unborn_update (by simp [atCall]) (by simp)
    calling := staged.uncalled_update isCalled (by simp)
    order := staged.order_update (by rw [atCall]; exact .inl) fun _ => by simp_all [Stage.freed]
    started := staged.started_update (by rw [atCall]; rfl)
    entry := staged.entry_update (by simp [atCall]) (by simp) }

theorem Staged.mem_started_iff (work : Work Key) :
    work ∈ lanes.started ↔ (stage work).begun = true := by
  obtain ⟨key, number⟩ := work
  obtain ⟨count, isRange, counted⟩ := staged.started key
  have inLane : (⟨key, number⟩ : Work Key) ∈ lanes.started ↔
      (⟨key, number⟩ : Work Key) ∈ lanes.started.filter (·.key = key) := by simp
  rw [counted, inLane, isRange]
  simp

theorem Staged.fulfilled_of_call {work outcome}
    (isOutcome : lanes.promises.outcome (Reaction.call work).source = some outcome) :
    outcome = .fulfilled none := by
  obtain ⟨key, number⟩ := work
  cases number with
  | zero => exact Option.some.inj (isOutcome.symm.trans staged.idle)
  | succ number =>
    have freed := isOutcome.symm.trans (staged.tail ⟨key, number⟩)
    split at freed
    · exact Option.some.inj freed
    · cases freed

theorem Staged.source_call (key : Key) :
    (lanes.promises.outcome ((lanes.tails.get key).getD .idle) = none →
        (lanes.tails.get key).getD .idle =
          (Reaction.call ⟨key, lanes.submitted key⟩ : Reaction Key).source) ∧
      lanes.promises.outcome ((lanes.tails.get key).getD .idle) =
        lanes.promises.outcome
          (Reaction.call ⟨key, lanes.submitted key⟩ : Reaction Key).source := by
  cases isTail : lanes.tails.get key with
  | none =>
    refine ⟨fun unsettled => ?_, ?_⟩
    · cases unsettled.symm.trans staged.idle
    · cases count : lanes.submitted key with
      | zero => rfl
      | succ number =>
        have isDone : stage ⟨key, number⟩ = .done := by
          by_contra undone
          have isTail' := (staged.entry key _).mpr ⟨number, count, rfl, undone⟩
          cases isTail.symm.trans isTail'
        refine staged.idle.trans ?_
        have freed := staged.tail ⟨key, number⟩
        rw [isDone] at freed
        exact freed.symm
  | some promise =>
    obtain ⟨number, count, rfl, -⟩ := (staged.entry key promise).mp isTail
    rw [count]
    exact ⟨fun _ => rfl, rfl⟩

theorem Staged.submit (key : Key) :
    Staged (lanes.run key)
      (Function.update stage ⟨key, lanes.submitted key⟩ .waiting) := by
  obtain ⟨work, isWork⟩ : ∃ work : Work Key, work = ⟨key, lanes.submitted key⟩ := ⟨_, rfl⟩
  have unborn : stage work = .unborn := (staged.unborn work).mpr (isWork ▸ Nat.le_refl _)
  have isNew : ∀ reaction : Reaction Key, reaction.work = work →
      reaction ∉ lanes.promises.pending := by
    intro reaction same
    rw [staged.live, same, unborn]
    cases reaction <;> simp [Reaction.liveAt]
  obtain ⟨own, asBefore⟩ := staged.source_call key
  have perm : (lanes.run key).promises.pending.Perm
      (.drop work :: .release work :: .call work :: lanes.promises.pending) := by
    rw [isWork]
    refine (Promises.pending_subscribe _ _ _).trans (.cons _ ?_)
    refine (Promises.pending_subscribe _ _ _).trans (.cons _ ?_)
    exact Promises.pending_subscribe _ _ _
  have outcomes : (lanes.run key).promises.outcome = lanes.promises.outcome := by
    show (Promises.subscribe _ _ _).outcome = _
    rw [Promises.outcome_subscribe, Promises.outcome_subscribe, Promises.outcome_subscribe]
  rw [← isWork]
  exact {
    attached := by
      refine ((staged.attached.subscribe own asBefore).subscribe ?_ ?_).subscribe ?_ ?_
      all_goals first | exact fun _ => rfl | rfl
    once := by
      rw [perm.nodup_iff]
      simp [isNew _ (show Reaction.work (.drop work) = work from rfl),
        isNew _ (show Reaction.work (.release work) = work from rfl),
        isNew _ (show Reaction.work (.call work) = work from rfl), staged.once]
    live := by
      refine staged.live_update (fun reaction same => ?_) fun reaction differs => ?_
      · have absent := isNew reaction same
        rw [perm.mem_iff]
        cases reaction <;> simp_all [Reaction.liveAt, Reaction.work, Stage.freed]
      · rw [perm.mem_iff]
        simp only [List.mem_cons]
        constructor
        · rintro (rfl | rfl | rfl | old)
          · exact absurd rfl differs
          · exact absurd rfl differs
          · exact absurd rfl differs
          · exact old
        · exact fun old => .inr (.inr (.inr old))
    idle := by
      rw [outcomes]
      exact staged.idle
    tail := staged.tail_update (by rw [unborn]; rfl) fun _ => by rw [outcomes]
    settled := staged.settled_update (by rw [unborn]; rfl) fun _ => by rw [outcomes]
    returned := staged.returned_update (by rw [unborn]; rfl) fun _ => by rw [outcomes]
    ended := fun other ended => by
      rw [update_view Stage.begun (by rw [unborn]; rfl)]
      exact staged.ended other ended
    told := staged.told_update (by rw [unborn]; rfl)
    unborn := fun other => by
      show _ ↔ Function.update lanes.submitted key (lanes.submitted key + 1) other.key ≤ _
      by_cases same : other = work
      · rw [same, isWork]
        simp
      · rw [Function.update_of_ne same, staged.unborn]
        by_cases sameKey : other.key = key
        · have differs : other.number ≠ lanes.submitted key := fun sameNumber =>
            same (by rw [isWork, ← sameNumber, ← sameKey])
          rw [sameKey, Function.update_self]
          omega
        · rw [Function.update_of_ne sameKey]
    calling := staged.calling_update (by simp [unborn]) (by simp)
    order := staged.order_update (by simp [Stage.begun]) (by simp [unborn, Stage.freed])
    started := staged.started_update (by rw [unborn]; rfl)
    entry := fun other promise => by
      show (lanes.tails.set key (.tail ⟨key, lanes.submitted key⟩)).get other = _ ↔
        ∃ number, Function.update lanes.submitted key (lanes.submitted key + 1) other = _ ∧ _
      by_cases same : other = key
      · subst same
        rw [OrderedMap.get_set_self, Function.update_self]
        constructor
        · intro isTail
          refine ⟨lanes.submitted other, rfl, (Option.some.inj isTail).symm, ?_⟩
          rw [← isWork, Function.update_self]
          exact Stage.noConfusion
        · rintro ⟨number, isNumber, rfl, -⟩
          obtain rfl : lanes.submitted other = number := by omega
          rfl
      · rw [OrderedMap.get_set_of_ne _ same, Function.update_of_ne same, staged.entry]
        refine exists_congr fun number => and_congr_right fun _ => and_congr_right fun _ => ?_
        rw [Function.update_of_ne fun sameWork => same ?_]
        rw [isWork] at sameWork
        exact congrArg Work.key sameWork }

end

end

/-! ### Runs -/

theorem Staged.step {lanes next stage} (staged : Staged lanes stage)
    {event : LaneEvent Key Value Reason} (taken : step lanes event = some next) :
    ∃ later, Staged next later := by
  cases event with
  | submit key =>
    cases taken
    exact ⟨_, staged.submit key⟩
  | turn =>
    obtain ⟨reaction, outcome, rest, idle, jobs, rfl⟩ := step_turn taken
    obtain ⟨-, isOutcome⟩ := staged.of_jobs jobs
    cases reaction with
    | call work =>
      obtain rfl := staged.fulfilled_of_call isOutcome
      exact ⟨_, staged.call jobs idle⟩
    | adopt work => exact ⟨_, staged.adopt jobs⟩
    | resolve work => exact ⟨_, staged.resolve jobs⟩
    | release work => exact ⟨_, staged.release jobs⟩
    | drop work => exact ⟨_, staged.drop jobs⟩
  | returned =>
    obtain ⟨work, isCalled, rfl⟩ := Option.map_eq_some_iff.mp taken
    exact ⟨_, staged.return_work isCalled⟩
  | threw reason =>
    obtain ⟨work, isCalled, thrown⟩ := Option.bind_eq_some_iff.mp taken
    split at thrown
    · rename_i unended
      cases thrown
      exact ⟨_, staged.throw_work isCalled unended reason⟩
    · cases thrown
  | ended work outcome =>
    simp only [SerialLanes.step] at taken
    split at taken
    · rename_i enabled
      obtain ⟨isStarted, unended⟩ := enabled
      cases taken
      exact ⟨_, staged.end_work ((staged.mem_started_iff work).mp isStarted) unended outcome⟩
    · cases taken

theorem staged_of_run {events lanes}
    (run : Run SerialLanes.step ({} : SerialLanes Key Value Reason) events lanes) :
    ∃ stage, Staged lanes stage := by
  have keeps : ∀ (lanes : SerialLanes Key Value Reason) (event : LaneEvent Key Value Reason) next,
      (∃ stage, Staged lanes stage) → SerialLanes.step lanes event = some next →
        ∃ stage, Staged next stage := by
    rintro lanes event next ⟨stage, staged⟩ taken
    exact staged.step taken
  have kept := run.keeps keeps ⟨_, staged_empty⟩
  exact kept

end SerialLanes

end Senars.Async
