/-
This file is the dispatch of tool goals: it takes the pending tasks as they are when it
begins, from the highest priority down, and hands those that are tool goals to the
executor one by one, suspended while each is executed. Meanwhile goals are added,
cancelled, cleared and expired, and another dispatch may begin.

A dispatch does not look whether a goal is still pending when it gets to it. So each
goal ends in one way exactly where every dispatch gets only to goals that are.
-/

import Senars.Cycle.Authorize
import Senars.Library.Runs

namespace Senars.Cycle

open Library Library.JsNumber

variable {Term : Type}

/-! ### The task manager -/

structure PendingTask (Term : Type) where
  id : String
  term : Term
  priority : JsNumber

/-- A pending task. The number is that of the goal, which is known by its id for as long as it is
pending. -/
structure TaskWrapper (Term : Type) where
  task : PendingTask Term
  timeout : ℕ
  goal : ℕ

/-- How a goal ends. -/
inductive GoalEnd where
  | handed (goal : ℕ)
  | cancelled (goal : ℕ)
  | cleared (goal : ℕ)
  | expired (goal : ℕ)
  deriving DecidableEq

def GoalEnd.goal : GoalEnd → ℕ
  | handed goal | cancelled goal | cleared goal | expired goal => goal

/-- The manager of the pending tasks with the timers that are armed, and the goals there were and
how they have ended, in order. -/
structure TaskManager (Term : Type) where
  defaultTimeout : ℕ := 30000
  pending : OrderedMap String (TaskWrapper Term) := .empty
  timeouts : OrderedMap String ℕ := .empty
  armed : List (ℕ × String) := []
  timers : ℕ := 0
  goals : ℕ := 0
  ends : List GoalEnd := []

namespace TaskManager

/-- Cancel the deadline of a task. -/
def disarm (manager : TaskManager Term) (taskId : String) : TaskManager Term :=
  { manager with
    armed := manager.armed.filter fun timer => manager.timeouts.get taskId ≠ some timer.1
    timeouts := manager.timeouts.delete taskId }

/-- Arm the deadline of a task. One that was armed under its id stays armed. -/
def arm (manager : TaskManager Term) (taskId : String) : TaskManager Term :=
  { manager with
    armed := manager.armed ++ [(manager.timers, taskId)]
    timeouts := manager.timeouts.set taskId manager.timers
    timers := manager.timers + 1 }

/-- Add a task. Under an id that is pending it takes the place of the task there. -/
def addTask (manager : TaskManager Term) (task : PendingTask Term) (timeout : Option ℕ) :
    TaskManager Term :=
  let timeout := timeout.getD manager.defaultTimeout
  let added := match manager.pending.get task.id with
    | some wrapper =>
      { manager with
        pending := manager.pending.set task.id { task, timeout, goal := wrapper.goal } }
    | none =>
      { manager with
        pending := manager.pending.set task.id { task, timeout, goal := manager.goals }
        goals := manager.goals + 1 }
  if 0 < timeout then added.arm task.id else added

/-- Take a task out of the pending ones, where it is one of them, and record how its goal ends. -/
def retire (manager : TaskManager Term) (taskId : String) (how : ℕ → GoalEnd) : TaskManager Term :=
  match manager.pending.get taskId with
  | none => manager
  | some wrapper =>
    ({ manager with
      pending := manager.pending.delete taskId
      ends := manager.ends ++ [how wrapper.goal] }).disarm taskId

def cancelTask (manager : TaskManager Term) (taskId : String) : TaskManager Term :=
  manager.retire taskId .cancelled

def expireTask (manager : TaskManager Term) (taskId : String) : TaskManager Term :=
  manager.retire taskId .expired

/-- Drop all pending tasks. -/
def clearPending (manager : TaskManager Term) : TaskManager Term :=
  let disarmed := (manager.pending.entries.map Prod.fst).foldl disarm manager
  { disarmed with
    pending := .empty
    ends := manager.ends ++ manager.pending.entries.map fun (_, wrapper) => .cleared wrapper.goal }

/-- A timer fires. -/
def fire (manager : TaskManager Term) (timer : ℕ × String) : TaskManager Term :=
  ({ manager with armed := manager.armed.filter (· ≠ timer) }).expireTask timer.2

/-- All pending tasks, the highest priority first. -/
def getPending (manager : TaskManager Term) : List (TaskWrapper Term) :=
  rankBy (manager.pending.entries.map Prod.snd) (·.task.priority) {}

/-- Take a task out of the pending ones without an end of its own. -/
def removePending (manager : TaskManager Term) (taskId : String) : TaskManager Term :=
  if (manager.pending.get taskId).isSome then
    ({ manager with pending := manager.pending.delete taskId }).disarm taskId
  else manager

/-- A goal is handed to the executor, whether it was pending or not. -/
def handOver (manager : TaskManager Term) (goal : TaskWrapper Term) : TaskManager Term :=
  { manager.removePending goal.task.id with ends := manager.ends ++ [.handed goal.goal] }

end TaskManager

/-! ### Dispatching -/

/-- The manager, and what each dispatch has ahead of it. -/
structure GoalQueue (Term : Type) where
  manager : TaskManager Term := {}
  dispatches : List (List (TaskWrapper Term)) := []

/-- What can happen: the tasks change, a timer that is armed fires, a dispatch begins, and one goes
on once the executor has returned or failed. -/
inductive GoalEvent (Term : Type) where
  | addTask (task : PendingTask Term) (timeout : Option ℕ)
  | cancelTask (taskId : String)
  | clearPending
  | fire (timer : ℕ × String)
  | dispatch
  | goOn (dispatch : ℕ)

namespace GoalQueue

/-- What a dispatch comes to, among what it has ahead: the next tool goal, and what is after it. -/
def ahead (isToolGoal : Term → Bool) (tasks : List (TaskWrapper Term)) : List (TaskWrapper Term) :=
  tasks.dropWhile fun wrapper => !isToolGoal wrapper.task.term

/-- A dispatch goes on to the next tool goal, and is suspended there. -/
def dispatchFrom (isToolGoal : Term → Bool) (manager : TaskManager Term)
    (tasks : List (TaskWrapper Term)) : TaskManager Term × List (TaskWrapper Term) :=
  match ahead isToolGoal tasks with
  | [] => (manager, [])
  | goal :: later => (manager.handOver goal, later)

def step (isToolGoal : Term → Bool) : Machine (GoalQueue Term) (GoalEvent Term)
  | queue, .addTask task timeout =>
    some { queue with manager := queue.manager.addTask task timeout }
  | queue, .cancelTask taskId => some { queue with manager := queue.manager.cancelTask taskId }
  | queue, .clearPending => some { queue with manager := queue.manager.clearPending }
  | queue, .fire timer =>
    if timer ∈ queue.manager.armed then some { queue with manager := queue.manager.fire timer }
    else none
  | queue, .dispatch =>
    let (manager, later) := dispatchFrom isToolGoal queue.manager queue.manager.getPending
    some { manager, dispatches := queue.dispatches ++ [later] }
  | queue, .goOn number =>
    (queue.dispatches[number]?).map fun tasks =>
      let (manager, later) := dispatchFrom isToolGoal queue.manager tasks
      { manager, dispatches := queue.dispatches.set number later }

/-! ### The ends of a goal -/

/-- A goal that is handed to the executor has not been handed over, cancelled, cleared or expired
before. -/
def HandsOnce (ends : List GoalEnd) : Prop :=
  ends.Pairwise fun earlier later => ∀ goal, later = .handed goal → earlier.goal ≠ goal

def EndsOnce (queue : GoalQueue Term) : Prop := HandsOnce queue.manager.ends

/-- A goal is still pending. -/
def IsPending (manager : TaskManager Term) (goal : TaskWrapper Term) : Prop :=
  ∃ wrapper, manager.pending.get goal.task.id = some wrapper ∧ wrapper.goal = goal.goal

/-- A dispatch that goes on comes to a goal that is still pending. -/
def StillPending (isToolGoal : Term → Bool) (queue : GoalQueue Term) : GoalEvent Term → Prop
  | .goOn number => ∀ tasks, queue.dispatches[number]? = some tasks →
      ∀ goal ∈ (ahead isToolGoal tasks).head?, IsPending queue.manager goal
  | _ => True

/-! ### What the manager keeps -/

/-- Goals that are pending are told apart by their numbers and have not ended. -/
structure Sound (manager : TaskManager Term) : Prop where
  named : ∀ id wrapper, manager.pending.get id = some wrapper → wrapper.task.id = id
  live : ∀ id wrapper, manager.pending.get id = some wrapper →
    wrapper.goal < manager.goals ∧ ∀ ended ∈ manager.ends, ended.goal ≠ wrapper.goal
  distinct : ∀ id other one another, manager.pending.get id = some one →
    manager.pending.get other = some another → one.goal = another.goal → id = other
  known : ∀ ended ∈ manager.ends, ended.goal < manager.goals

/-- A goal is pending or has ended. -/
def Accounted (manager : TaskManager Term) (goal : TaskWrapper Term) : Prop :=
  IsPending manager goal ∨ ∃ ended ∈ manager.ends, ended.goal = goal.goal

/-- What was pending is pending still or has ended. -/
structure Follows (manager next : TaskManager Term) : Prop where
  ends : ∀ ended ∈ manager.ends, ended ∈ next.ends
  kept : ∀ goal, IsPending manager goal → Accounted next goal

variable {manager next : TaskManager Term}

theorem Follows.accounted (follows : Follows manager next) {goal}
    (accounted : Accounted manager goal) : Accounted next goal := by
  rcases accounted with pending | ⟨ended, isEnd, same⟩
  · exact follows.kept goal pending
  · exact .inr ⟨ended, follows.ends ended isEnd, same⟩

theorem sound_retire (sound : Sound manager) (taskId : String) {how}
    (named : ∀ goal, (how goal).goal = goal) :
    Sound (manager.retire taskId how) ∧ Follows manager (manager.retire taskId how) := by
  unfold TaskManager.retire
  split
  · exact ⟨sound, fun _ isEnd => isEnd, fun _ pending => .inl pending⟩
  rename_i wrapper found
  have deleted : ∀ id other, (manager.pending.delete taskId).get id = some other →
      id ≠ taskId ∧ manager.pending.get id = some other := by
    intro id other isThere
    rw [OrderedMap.get_delete] at isThere
    split at isThere
    · cases isThere
    · exact ⟨‹_›, isThere⟩
  refine ⟨⟨?_, ?_, ?_, ?_⟩, fun _ isEnd => List.mem_append_left _ isEnd, ?_⟩
  · exact fun id other isThere => sound.named id other (deleted id other isThere).2
  · intro id other isThere
    obtain ⟨differs, was⟩ := deleted id other isThere
    refine ⟨(sound.live id other was).1, fun ended isEnd same => ?_⟩
    rcases List.mem_append.mp isEnd with old | new
    · exact (sound.live id other was).2 ended old same
    · rw [List.mem_singleton.mp new, named] at same
      exact differs (sound.distinct id taskId other wrapper was found same.symm)
  · intro id other one another isOne isAnother
    exact sound.distinct id other one another (deleted _ _ isOne).2 (deleted _ _ isAnother).2
  · intro ended isEnd
    rcases List.mem_append.mp isEnd with old | new
    · exact sound.known ended old
    · rw [List.mem_singleton.mp new, named]
      exact (sound.live taskId wrapper found).1
  · rintro goal ⟨other, isThere, same⟩
    by_cases own : goal.task.id = taskId
    · rw [own, found] at isThere
      cases isThere
      refine .inr ⟨how wrapper.goal, List.mem_append_right _ List.mem_cons_self, ?_⟩
      rw [named, same]
    · refine .inl ⟨other, ?_, same⟩
      show (manager.pending.delete taskId).get goal.task.id = some other
      rw [OrderedMap.get_delete, if_neg own]
      exact isThere

theorem sound_fire (sound : Sound manager) (timer : ℕ × String) :
    Sound (manager.fire timer) ∧ Follows manager (manager.fire timer) := by
  have same : Sound { manager with armed := manager.armed.filter (· ≠ timer) } :=
    ⟨sound.named, sound.live, sound.distinct, sound.known⟩
  have named : ∀ goal, (GoalEnd.expired goal).goal = goal := fun _ => rfl
  obtain ⟨fired, follows⟩ := sound_retire same timer.2 named
  exact ⟨fired, follows.ends, follows.kept⟩

theorem goals_disarm (taskIds : List String) (manager : TaskManager Term) :
    (taskIds.foldl TaskManager.disarm manager).goals = manager.goals := by
  induction taskIds generalizing manager with
  | nil => rfl
  | cons taskId rest ih => exact ih (manager.disarm taskId)

theorem sound_clearPending (sound : Sound manager) :
    Sound manager.clearPending ∧ Follows manager manager.clearPending := by
  have goals : manager.clearPending.goals = manager.goals := goals_disarm _ manager
  refine ⟨⟨?_, ?_, ?_, ?_⟩, fun _ isEnd => List.mem_append_left _ isEnd, ?_⟩
  · exact fun id wrapper isThere => by cases isThere
  · exact fun id wrapper isThere => by cases isThere
  · exact fun id other one another isOne => by cases isOne
  · intro ended isEnd
    rw [goals]
    rcases List.mem_append.mp isEnd with old | new
    · exact sound.known ended old
    · obtain ⟨⟨id, wrapper⟩, isEntry, rfl⟩ := List.mem_map.mp new
      exact (sound.live id wrapper ((OrderedMap.get_eq_some_iff _ _ _).mpr isEntry)).1
  · rintro goal ⟨wrapper, isThere, same⟩
    refine .inr ⟨.cleared wrapper.goal, List.mem_append_right _ (List.mem_map.mpr ?_), same⟩
    exact ⟨_, (OrderedMap.get_eq_some_iff _ _ _).mp isThere, rfl⟩

theorem exists_addTask (manager : TaskManager Term) (task : PendingTask Term)
    (timeout : Option ℕ) : ∃ wrapper : TaskWrapper Term, wrapper.task = task ∧
      (manager.addTask task timeout).pending = manager.pending.set task.id wrapper ∧
      (manager.addTask task timeout).ends = manager.ends ∧
      ((∃ old, manager.pending.get task.id = some old ∧ wrapper.goal = old.goal ∧
          (manager.addTask task timeout).goals = manager.goals) ∨
        manager.pending.get task.id = none ∧ wrapper.goal = manager.goals ∧
          (manager.addTask task timeout).goals = manager.goals + 1) := by
  unfold TaskManager.addTask
  cases found : manager.pending.get task.id with
  | some old =>
    refine ⟨⟨task, timeout.getD manager.defaultTimeout, old.goal⟩, rfl, ?_, ?_,
      .inl ⟨old, rfl, rfl, ?_⟩⟩
    all_goals dsimp only; split <;> rfl
  | none =>
    refine ⟨⟨task, timeout.getD manager.defaultTimeout, manager.goals⟩, rfl, ?_, ?_,
      .inr ⟨rfl, rfl, ?_⟩⟩
    all_goals dsimp only; split <;> rfl

theorem sound_addTask (sound : Sound manager) (task : PendingTask Term) (timeout : Option ℕ) :
    Sound (manager.addTask task timeout) ∧ Follows manager (manager.addTask task timeout) := by
  obtain ⟨wrapper, isTask, pending, ends, goals⟩ := exists_addTask manager task timeout
  have places : ∀ id other, (manager.addTask task timeout).pending.get id = some other →
      id = task.id ∧ other = wrapper ∨ id ≠ task.id ∧ manager.pending.get id = some other := by
    intro id other isThere
    rw [pending, OrderedMap.get_set] at isThere
    split at isThere
    · exact .inl ⟨‹_›, (Option.some.inj isThere).symm⟩
    · exact .inr ⟨‹_›, isThere⟩
  have grows : manager.goals ≤ (manager.addTask task timeout).goals := by
    rcases goals with ⟨_, _, _, same⟩ | ⟨_, _, more⟩ <;> omega
  -- the goal of the task is the one that was pending, or one that was not there
  have fresh : wrapper.goal < (manager.addTask task timeout).goals ∧
      (∀ ended ∈ manager.ends, ended.goal ≠ wrapper.goal) ∧
      ∀ id other, manager.pending.get id = some other → other.goal = wrapper.goal →
        id = task.id := by
    rcases goals with ⟨old, isOld, isSame, same⟩ | ⟨_, isNew, more⟩
    · rw [isSame, same]
      refine ⟨(sound.live _ old isOld).1, (sound.live _ old isOld).2, fun id other isThere => ?_⟩
      exact sound.distinct id task.id other old isThere isOld
    · rw [isNew, more]
      refine ⟨Nat.lt_succ_self _, fun ended isEnd => (sound.known ended isEnd).ne, ?_⟩
      exact fun id other isThere same => absurd same (sound.live id other isThere).1.ne
  refine ⟨⟨?_, ?_, ?_, ?_⟩, fun ended isEnd => ends ▸ isEnd, ?_⟩
  · intro id other isThere
    rcases places id other isThere with ⟨rfl, rfl⟩ | ⟨-, was⟩
    · rw [isTask]
    · exact sound.named id other was
  · intro id other isThere
    rw [ends]
    rcases places id other isThere with ⟨rfl, rfl⟩ | ⟨-, was⟩
    · exact ⟨fresh.1, fresh.2.1⟩
    · exact ⟨(sound.live id other was).1.trans_le grows, (sound.live id other was).2⟩
  · intro id other one another isOne isAnother same
    rcases places id one isOne with ⟨rfl, rfl⟩ | ⟨-, wasOne⟩ <;>
      rcases places other another isAnother with ⟨rfl, rfl⟩ | ⟨-, wasAnother⟩
    · rfl
    · exact (fresh.2.2 other another wasAnother same.symm).symm
    · exact fresh.2.2 id one wasOne same
    · exact sound.distinct id other one another wasOne wasAnother same
  · intro ended isEnd
    rw [ends] at isEnd
    exact (sound.known ended isEnd).trans_le grows
  · rintro goal ⟨other, isThere, same⟩
    by_cases own : goal.task.id = task.id
    · refine .inl ⟨wrapper, by rw [pending, own, OrderedMap.get_set_self], ?_⟩
      rw [own] at isThere
      rcases goals with ⟨old, isOld, isSame, -⟩ | ⟨none, -, -⟩
      · cases isOld.symm.trans isThere
        exact isSame.trans same
      · cases none.symm.trans isThere
    · exact .inl ⟨other, by rw [pending, OrderedMap.get_set_of_ne _ own]; exact isThere, same⟩

theorem sound_handOver (sound : Sound manager) {goal} (pending : IsPending manager goal) :
    Sound (manager.handOver goal) ∧ Follows manager (manager.handOver goal) := by
  obtain ⟨wrapper, found, same⟩ := pending
  have retires : manager.handOver goal =
      manager.retire goal.task.id fun _ => .handed goal.goal := by
    unfold TaskManager.handOver TaskManager.removePending TaskManager.retire
    rw [found]
    rfl
  have asHanded : manager.retire goal.task.id (fun _ => .handed goal.goal) =
      manager.retire goal.task.id .handed := by
    unfold TaskManager.retire
    rw [found]
    simp only [same]
  rw [retires, asHanded]
  exact sound_retire sound goal.task.id fun _ => rfl

/-! ### Runs -/

/-- The queue is sound, and every goal that a dispatch has ahead of it is pending or has ended. -/
structure Kept (queue : GoalQueue Term) : Prop where
  sound : Sound queue.manager
  ahead : ∀ tasks ∈ queue.dispatches, ∀ goal ∈ tasks, Accounted queue.manager goal

theorem isPending_of_mem_getPending (sound : Sound manager) {goal}
    (isTaken : goal ∈ manager.getPending) : IsPending manager goal := by
  have isEntry : goal ∈ manager.pending.entries.map Prod.snd := by
    exact List.mem_of_mem_filter ((Comparison.toSorted_perm _ _).mem_iff.mp isTaken)
  obtain ⟨⟨id, wrapper⟩, inMap, rfl⟩ := List.mem_map.mp isEntry
  have found := (OrderedMap.get_eq_some_iff _ _ _).mpr inMap
  exact ⟨wrapper, (sound.named id wrapper found).symm ▸ found, rfl⟩

variable {isToolGoal : Term → Bool} {tasks : List (TaskWrapper Term)}

theorem mem_of_mem_ahead {goal} (isAhead : goal ∈ ahead isToolGoal tasks) : goal ∈ tasks :=
  (List.dropWhile_suffix _).subset isAhead

theorem sound_dispatchFrom (isToolGoal : Term → Bool) (sound : Sound manager)
    (pending : ∀ goal ∈ (ahead isToolGoal tasks).head?, IsPending manager goal) :
    Sound (dispatchFrom isToolGoal manager tasks).1 ∧
      Follows manager (dispatchFrom isToolGoal manager tasks).1 := by
  unfold dispatchFrom
  cases isAhead : ahead isToolGoal tasks with
  | nil => exact ⟨sound, fun _ isEnd => isEnd, fun _ pending => .inl pending⟩
  | cons goal later => exact sound_handOver sound (pending goal (by rw [isAhead]; rfl))

theorem mem_of_mem_dispatchFrom {goal}
    (isLater : goal ∈ (dispatchFrom isToolGoal manager tasks).2) : goal ∈ tasks := by
  unfold dispatchFrom at isLater
  split at isLater
  · cases isLater
  · rename_i first later isAhead
    exact mem_of_mem_ahead (isAhead ▸ List.mem_cons_of_mem _ isLater)

theorem ends_dispatchFrom (isToolGoal : Term → Bool) (manager : TaskManager Term)
    (tasks : List (TaskWrapper Term)) :
    (dispatchFrom isToolGoal manager tasks).1.ends =
      manager.ends ++ (ahead isToolGoal tasks).head?.toList.map fun goal => .handed goal.goal := by
  unfold dispatchFrom
  split
  · rename_i none
    rw [none]
    exact (List.append_nil _).symm
  · rename_i goal later isAhead
    rw [isAhead]
    rfl

theorem Kept.step {isToolGoal queue next} (kept : queue.Kept) {event : GoalEvent Term}
    (still : StillPending isToolGoal queue event)
    (taken : step isToolGoal queue event = some next) : next.Kept := by
  have changes : ∀ manager, Sound manager ∧ Follows queue.manager manager →
      Kept { queue with manager := manager } := fun manager kept' =>
    ⟨kept'.1, fun tasks isDispatch goal isGoal =>
      kept'.2.accounted (kept.ahead tasks isDispatch goal isGoal)⟩
  cases event with
  | addTask task timeout =>
    cases taken
    exact changes _ (sound_addTask kept.sound task timeout)
  | cancelTask taskId =>
    cases taken
    exact changes _ (sound_retire kept.sound taskId fun _ => rfl)
  | clearPending =>
    cases taken
    exact changes _ (sound_clearPending kept.sound)
  | fire timer =>
    simp only [GoalQueue.step] at taken
    split at taken
    · cases taken
      exact changes _ (sound_fire kept.sound timer)
    · cases taken
  | dispatch =>
    cases taken
    have pending : ∀ goal ∈ queue.manager.getPending, IsPending queue.manager goal :=
      fun goal isTaken => isPending_of_mem_getPending kept.sound isTaken
    obtain ⟨sound, follows⟩ := sound_dispatchFrom isToolGoal kept.sound
      fun goal isNext => pending goal (mem_of_mem_ahead (List.mem_of_mem_head? isNext))
    refine ⟨sound, fun tasks isDispatch goal isGoal => ?_⟩
    rcases List.mem_append.mp isDispatch with old | new
    · exact follows.accounted (kept.ahead tasks old goal isGoal)
    · rw [List.mem_singleton.mp new] at isGoal
      exact follows.kept goal (pending goal (mem_of_mem_dispatchFrom isGoal))
  | goOn number =>
    obtain ⟨tasks, found, rfl⟩ := Option.map_eq_some_iff.mp taken
    obtain ⟨sound, follows⟩ := sound_dispatchFrom isToolGoal kept.sound (still tasks found)
    refine ⟨sound, fun other isDispatch goal isGoal => follows.accounted ?_⟩
    rcases List.mem_or_eq_of_mem_set isDispatch with old | rfl
    · exact kept.ahead other old goal isGoal
    · exact kept.ahead tasks (List.mem_of_getElem? found) goal (mem_of_mem_dispatchFrom isGoal)

theorem HandsOnce.append {ends more} (once : HandsOnce ends)
    (unhanded : ∀ ended ∈ more, ∀ goal, ended ≠ .handed goal) : HandsOnce (ends ++ more) := by
  refine List.pairwise_append.mpr ⟨once, ?_, fun _ _ later isMore goal same => ?_⟩
  · exact List.pairwise_of_forall_mem_list fun _ _ later isMore goal same =>
      absurd same (unhanded later isMore goal)
  · exact absurd same (unhanded later isMore goal)

theorem HandsOnce.handed_iff {ends} (once : HandsOnce ends) (goal : ℕ) :
    HandsOnce (ends ++ [.handed goal]) ↔ ∀ ended ∈ ends, ended.goal ≠ goal := by
  unfold HandsOnce
  rw [List.pairwise_append]
  constructor
  · exact fun ⟨_, _, apart⟩ ended isEnd => apart ended isEnd _ List.mem_cons_self goal rfl
  · intro apart
    refine ⟨once, List.pairwise_singleton _ _, fun ended isEnd later isLater other same => ?_⟩
    rw [List.mem_singleton.mp isLater] at same
    cases same
    exact apart ended isEnd

theorem Sound.isPending_iff (sound : Sound manager) {goal} (accounted : Accounted manager goal) :
    IsPending manager goal ↔ ∀ ended ∈ manager.ends, ended.goal ≠ goal.goal := by
  constructor
  · rintro ⟨wrapper, found, same⟩ ended isEnd
    rw [← same]
    exact (sound.live _ wrapper found).2 ended isEnd
  · intro unended
    rcases accounted with pending | ⟨ended, isEnd, same⟩
    · exact pending
    · exact absurd same (unended ended isEnd)

theorem HandsOnce.retire (once : HandsOnce manager.ends) (taskId : String) {how}
    (unhanded : ∀ one goal, how one ≠ .handed goal) :
    HandsOnce (manager.retire taskId how).ends := by
  unfold TaskManager.retire
  split
  · exact once
  · refine once.append fun ended isEnd goal => ?_
    rw [List.mem_singleton.mp isEnd]
    exact unhanded _ goal

theorem EndsOnce.step_iff {queue next} (once : queue.EndsOnce) (kept : queue.Kept) {event}
    (taken : step isToolGoal queue event = some next) :
    StillPending isToolGoal queue event ↔ next.EndsOnce := by
  -- a dispatch goes on to a goal that is accounted for
  have goesOn : ∀ tasks, (∀ goal ∈ tasks, Accounted queue.manager goal) →
      ((∀ goal ∈ (ahead isToolGoal tasks).head?, IsPending queue.manager goal) ↔
        HandsOnce (dispatchFrom isToolGoal queue.manager tasks).1.ends) := by
    intro tasks accounted
    rw [ends_dispatchFrom]
    cases isAhead : ahead isToolGoal tasks with
    | nil =>
      refine iff_of_true (fun goal isNext => by cases isNext) ?_
      exact (List.append_nil _).symm ▸ once
    | cons goal later =>
      have isTask := mem_of_mem_ahead (isAhead ▸ List.mem_cons_self : goal ∈ ahead isToolGoal tasks)
      have pending := kept.sound.isPending_iff (accounted goal isTask)
      have handed := HandsOnce.handed_iff once goal.goal
      simp only [List.head?_cons, Option.mem_def, Option.some.injEq, forall_eq',
        Option.toList_some, List.map_cons, List.map_nil]
      exact pending.trans handed.symm
  cases event with
  | addTask task timeout =>
    cases taken
    obtain ⟨_, _, _, ends, _⟩ := exists_addTask queue.manager task timeout
    refine iff_of_true trivial ?_
    show HandsOnce (queue.manager.addTask task timeout).ends
    rw [ends]
    exact once
  | cancelTask taskId =>
    cases taken
    exact iff_of_true trivial (HandsOnce.retire once taskId fun _ _ same => by cases same)
  | clearPending =>
    cases taken
    refine iff_of_true trivial (HandsOnce.append once fun ended isEnd goal same => ?_)
    obtain ⟨_, _, rfl⟩ := List.mem_map.mp isEnd
    cases same
  | fire timer =>
    simp only [GoalQueue.step] at taken
    split at taken
    · cases taken
      have same : HandsOnce (({ queue.manager with
          armed := queue.manager.armed.filter (· ≠ timer) } : TaskManager Term)).ends := once
      exact iff_of_true trivial (same.retire timer.2 fun _ _ same => by cases same)
    · cases taken
  | dispatch =>
    cases taken
    have pending : ∀ goal ∈ queue.manager.getPending, IsPending queue.manager goal :=
      fun goal isTaken => isPending_of_mem_getPending kept.sound isTaken
    refine iff_of_true trivial ((goesOn _ fun goal isTaken => .inl (pending goal isTaken)).mp ?_)
    exact fun goal isNext => pending goal (mem_of_mem_ahead (List.mem_of_mem_head? isNext))
  | goOn number =>
    obtain ⟨tasks, found, rfl⟩ := Option.map_eq_some_iff.mp taken
    have accounted := kept.ahead tasks (List.mem_of_getElem? found)
    refine Iff.trans ⟨fun still => still tasks found, fun still other isOther => ?_⟩
      (goesOn tasks accounted)
    cases found.symm.trans isOther
    exact still

/-- A queue with nothing pending. -/
def start (defaultTimeout : ℕ) : GoalQueue Term := { manager := { defaultTimeout } }

theorem kept_start (defaultTimeout : ℕ) : (start defaultTimeout : GoalQueue Term).Kept where
  sound := by
    refine ⟨?_, ?_, ?_, ?_⟩
    · exact fun id wrapper isThere => by cases isThere
    · exact fun id wrapper isThere => by cases isThere
    · exact fun id other one another isOne => by cases isOne
    · exact fun ended isEnd => absurd isEnd List.not_mem_nil
  ahead := fun tasks isDispatch => absurd isDispatch List.not_mem_nil

/-- In a run every goal ends in one way, all the way, exactly where each dispatch that goes on comes
to a goal that is still pending. -/
theorem endsOnce_iff {isToolGoal : Term → Bool} {defaultTimeout : ℕ}
    {events : List (GoalEvent Term)} {last : GoalQueue Term}
    (run : Run (step isToolGoal) (start defaultTimeout) events last) :
    Run.Meets (step isToolGoal) (StillPending isToolGoal) (start defaultTimeout) events ↔
      ∀ reached, Run.Passes (step isToolGoal) (start defaultTimeout) events reached →
        reached.EndsOnce := by
  have agree : ∀ (queue : GoalQueue Term) (event : GoalEvent Term) next, queue.Kept →
      queue.EndsOnce → step isToolGoal queue event = some next →
        (StillPending isToolGoal queue event ↔ next.EndsOnce) :=
    fun _ _ _ kept once taken => once.step_iff kept taken
  have keeps : ∀ (queue : GoalQueue Term) (event : GoalEvent Term) next, queue.Kept →
      StillPending isToolGoal queue event → step isToolGoal queue event = some next → next.Kept :=
    fun _ _ _ kept still taken => kept.step still taken
  exact Run.meets_iff_passes_of_keeps agree keeps run (kept_start defaultTimeout) List.Pairwise.nil

/-- Two tool goals, of which the second is cancelled while the first is executed. -/
def cancelledMeanwhile : List (GoalEvent String) :=
  [.addTask ⟨"first", "move", 2⟩ none, .addTask ⟨"second", "grasp", 1⟩ none, .dispatch,
    .cancelTask "second", .goOn 0]

theorem endsOnce_iff_cancelledMeanwhile : ∃ last,
    execute (step fun _ => true) (start 30000) cancelledMeanwhile = some last ∧
      (Run.Meets (step fun _ => true) (StillPending fun _ => true) (start 30000)
          cancelledMeanwhile ↔
        ∀ reached, Run.Passes (step fun _ => true) (start 30000) cancelledMeanwhile reached →
          reached.EndsOnce) := by
  have canRun : (execute (step fun _ => true) (start 30000) cancelledMeanwhile).isSome = true := by
    decide +kernel
  obtain ⟨last, done⟩ := Option.isSome_iff_exists.mp canRun
  exact ⟨last, done, endsOnce_iff (run_of_execute done)⟩

/-- The goal that was cancelled is handed to the executor. -/
theorem handed_cancelled : ¬ ∀ (isToolGoal : String → Bool) (defaultTimeout : ℕ)
    (events : List (GoalEvent String)) (last : GoalQueue String),
    Run (step isToolGoal) (start defaultTimeout) events last → last.EndsOnce := by
  intro always
  have canRun : (execute (step fun _ => true) (start 30000) cancelledMeanwhile).any
      (fun last => last.manager.ends = [.handed 0, .cancelled 1, .handed 1]) = true := by
    decide +kernel
  obtain ⟨last, done, ends⟩ := (Option.any_eq_true _ _).mp canRun
  have once := always _ _ _ last (run_of_execute done)
  unfold EndsOnce HandsOnce at once
  rw [of_decide_eq_true ends] at once
  have apart := (List.pairwise_cons.mp (List.pairwise_cons.mp once).2).1 _ List.mem_cons_self 1 rfl
  exact apart rfl

end GoalQueue

end Senars.Cycle
