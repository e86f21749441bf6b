/-
This file is the manager of the pending tasks and the deadlines at which they expire. The
deadlines are kept in step with the pending tasks by hand: every operation that takes a task out
of the pending ones clears the deadline under its id.

The one that does not is adding a task under an id that is pending. The deadline of the task
that is replaced stays armed, and nothing knows it any more; so the armed deadlines are those of
the pending tasks exactly where no task is added under an id whose task has a deadline.

The clock is read once for each call. A wrapper is known by its place among all that were added.
The gates and the memory give answers; that they throw is not modelled.
-/

import Senars.Containers.BoundedMap
import Senars.Cycle.Authorize

namespace Senars.Control

open Library Containers

variable {Content : Type}

/-- A task: the id of its stamp, the priority of its budget, and what is handed to the gates and to
the memory. -/
structure ManagedTask (Content : Type) where
  id : String
  priority : JsNumber
  content : Content

inductive TaskLifecycle where
  | pending | running | completed | failed | expired
  deriving DecidableEq

structure TaskWrapper (Content : Type) where
  task : ManagedTask Content
  lifecycle : TaskLifecycle
  createdAt : JsNumber
  startedAt : Option JsNumber := none
  completedAt : Option JsNumber := none
  timeout : JsNumber
  priority : JsNumber
  serial : ℕ

/-- A deadline that is armed: the task that was added when it was, and the id it will expire. -/
structure ArmedDeadline where
  serial : ℕ
  taskId : String
  deriving DecidableEq

def retiredHistory : ℕ := 1024

/-- The manager, the deadlines that are armed, and how many tasks were added. -/
structure TaskManager (Content : Type) where
  defaultTimeout : JsNumber := 30000
  pending : OrderedMap String (TaskWrapper Content) := .empty
  completed : BoundedMap String (TaskWrapper Content) :=
    .new { maxSize := retiredHistory, eviction := .fifo }
  failed : BoundedMap String (TaskWrapper Content) :=
    .new { maxSize := retiredHistory, eviction := .fifo }
  timeouts : OrderedMap String ℕ := .empty
  armed : List ArmedDeadline := []
  added : ℕ := 0

/-- What the gates and the memory say of a task that is processed. -/
structure TaskAnswers (Content : Type) where
  granted : TaskWrapper Content → Bool
  admitted : TaskWrapper Content → Bool
  stored : TaskWrapper Content → Bool

/-- `timeout && timeout > 0` -/
def hasDeadline (timeout : JsNumber) : Bool := timeout.truthy && JsNumber.less 0 timeout

namespace TaskManager

/-- The retired tasks neither expire nor are they drawn from, so the clock and the draw of the map
do not matter. -/
def keepRetired (retired : BoundedMap String (TaskWrapper Content)) (taskId : String)
    (wrapper : TaskWrapper Content) : BoundedMap String (TaskWrapper Content) :=
  retired.set 0 0 taskId wrapper

def byPriority (manager : TaskManager Content) : List (TaskWrapper Content) :=
  Cycle.rankBy (manager.pending.entries.map Prod.snd) (·.priority) {}

/-- Cancel the deadline that is known for an id. -/
def disarm (manager : TaskManager Content) (taskId : String) : TaskManager Content :=
  { manager with
    armed := manager.armed.filter fun deadline =>
      decide (manager.timeouts.get taskId ≠ some deadline.serial)
    timeouts := manager.timeouts.delete taskId }

def removePending (manager : TaskManager Content) (taskId : String) :
    Bool × TaskManager Content :=
  match manager.pending.get taskId with
  | none => (false, manager)
  | some _ =>
    (true, { manager with pending := manager.pending.delete taskId }.disarm taskId)

/-- The wrapper of a task that is added. -/
def newWrapper (manager : TaskManager Content) (now : JsNumber) (task : ManagedTask Content)
    (timeout : Option JsNumber) : TaskWrapper Content where
  task := task
  lifecycle := .pending
  createdAt := now
  timeout := timeout.getD manager.defaultTimeout
  priority := task.priority
  serial := manager.added

def addTask (manager : TaskManager Content) (now : JsNumber) (task : ManagedTask Content)
    (timeout : Option JsNumber) : TaskManager Content :=
  if hasDeadline (timeout.getD manager.defaultTimeout) then
    { manager with
      pending := manager.pending.set task.id (manager.newWrapper now task timeout)
      armed := manager.armed ++ [⟨manager.added, task.id⟩]
      timeouts := manager.timeouts.set task.id manager.added
      added := manager.added + 1 }
  else
    { manager with
      pending := manager.pending.set task.id (manager.newWrapper now task timeout)
      added := manager.added + 1 }

/-- A wrapper that is being processed moves to the failed tasks. -/
def fail (manager : TaskManager Content) (now : JsNumber) (lifecycle : TaskLifecycle)
    (wrapper : TaskWrapper Content) : TaskManager Content :=
  { manager with
    failed := keepRetired manager.failed wrapper.task.id
      { wrapper with lifecycle, completedAt := some now }
    pending := manager.pending.delete wrapper.task.id }

def complete (manager : TaskManager Content) (now : JsNumber) (wrapper : TaskWrapper Content) :
    TaskManager Content :=
  { manager with
    completed := keepRetired manager.completed wrapper.task.id
      { wrapper with lifecycle := .completed, completedAt := some now }
    pending := manager.pending.delete wrapper.task.id }

/-- The loop over the wrappers that were pending when it began. -/
def processWrappers (answers : TaskAnswers Content) (now : JsNumber) :
    List (TaskWrapper Content) → TaskManager Content →
      TaskManager Content × List (ManagedTask Content)
  | [], manager => (manager, [])
  | wrapper :: rest, manager =>
    if wrapper.lifecycle ≠ .pending then processWrappers answers now rest manager
    else if !answers.granted wrapper then (manager, [])
    else
      let disarmed := manager.disarm wrapper.task.id
      let running := { wrapper with lifecycle := .running, startedAt := some now }
      if !answers.admitted wrapper then
        processWrappers answers now rest (disarmed.fail now .failed running)
      else if answers.stored wrapper then
        let (last, processed) :=
          processWrappers answers now rest (disarmed.complete now running)
        (last, wrapper.task :: processed)
      else processWrappers answers now rest (disarmed.fail now .failed running)

def processPending (manager : TaskManager Content) (answers : TaskAnswers Content)
    (now : JsNumber) : TaskManager Content × List (ManagedTask Content) :=
  processWrappers answers now manager.byPriority manager

def cancelTask (manager : TaskManager Content) (now : JsNumber) (taskId : String) :
    Bool × TaskManager Content :=
  match manager.pending.get taskId with
  | none => (false, manager)
  | some wrapper =>
    (true, { manager with
      pending := manager.pending.delete taskId
      failed := keepRetired manager.failed taskId
        { wrapper with lifecycle := .failed, completedAt := some now } }.disarm taskId)

def clear (manager : TaskManager Content) : TaskManager Content :=
  { manager with
    armed := manager.armed.filter fun deadline =>
      decide (deadline.serial ∉ manager.timeouts.entries.map Prod.snd)
    timeouts := .empty
    pending := .empty
    completed := .new manager.completed.options
    failed := .new manager.failed.options }

def clearPending (manager : TaskManager Content) : TaskManager Content :=
  { (manager.pending.entries.map Prod.fst).foldl disarm manager with pending := .empty }

def expireTask (manager : TaskManager Content) (now : JsNumber) (taskId : String) :
    TaskManager Content :=
  match manager.pending.get taskId with
  | none => manager
  | some wrapper =>
    { manager with
      pending := manager.pending.delete taskId
      failed := keepRetired manager.failed taskId
        { wrapper with lifecycle := .expired, completedAt := some now } }.disarm taskId

/-- A deadline fires. -/
def fire (manager : TaskManager Content) (now : JsNumber) (deadline : ArmedDeadline) :
    TaskManager Content :=
  { manager with armed := manager.armed.erase deadline }.expireTask now deadline.taskId

/-! ### Runs -/

inductive TaskEvent (Content : Type) where
  | addTask (now : JsNumber) (task : ManagedTask Content) (timeout : Option JsNumber)
  | processPending (answers : TaskAnswers Content) (now : JsNumber)
  | removePending (taskId : String)
  | cancelTask (now : JsNumber) (taskId : String)
  | clearPending
  | clear
  | fire (now : JsNumber) (deadline : ArmedDeadline)

/-- A manager as a machine. A deadline fires only while it is armed. -/
def machine : Machine (TaskManager Content) (TaskEvent Content)
  | manager, .addTask now task timeout => some (manager.addTask now task timeout)
  | manager, .processPending answers now => some (manager.processPending answers now).1
  | manager, .removePending taskId => some (manager.removePending taskId).2
  | manager, .cancelTask now taskId => some (manager.cancelTask now taskId).2
  | manager, .clearPending => some manager.clearPending
  | manager, .clear => some manager.clear
  | manager, .fire now deadline =>
    if deadline ∈ manager.armed then some (manager.fire now deadline) else none

/-- The task of an id that was added with this number has a deadline. -/
def Due (manager : TaskManager Content) (taskId : String) (serial : ℕ) : Prop :=
  ∃ wrapper, manager.pending.get taskId = some wrapper ∧ hasDeadline wrapper.timeout = true ∧
    wrapper.serial = serial

/-- The armed deadlines are exactly one for each pending task with a positive timeout, the one that
was armed when the task was added. -/
structure Punctual (manager : TaskManager Content) : Prop where
  once : manager.armed.Nodup
  exactly : ∀ deadline, deadline ∈ manager.armed ↔ manager.Due deadline.taskId deadline.serial

/-- The failed task of an id. -/
def failedTask (manager : TaskManager Content) (taskId : String) : Option (TaskWrapper Content) :=
  (manager.failed.entries.get taskId).map (·.value)

/-- A task that an event moves to the expired ones is moved there by the deadline that was armed
when it was added. -/
def ExpiresOwn (manager : TaskManager Content) (event : TaskEvent Content) : Prop :=
  ∀ next, machine manager event = some next →
    ∀ taskId wrapper, next.failedTask taskId = some wrapper → wrapper.lifecycle = .expired →
      manager.failedTask taskId = some wrapper ∨
        ∃ now, event = .fire now ⟨wrapper.serial, taskId⟩

/-- No task is added under an id whose task has a deadline. -/
def AddsUndue (manager : TaskManager Content) (event : TaskEvent Content) : Prop :=
  ∀ now task timeout, event = .addTask now task timeout →
    ∀ serial, ¬ manager.Due task.id serial

/-- The deadlines that are known are those of the pending tasks. -/
structure InStep (manager : TaskManager Content) : Prop where
  earlier : ∀ taskId wrapper, manager.pending.get taskId = some wrapper →
    wrapper.serial < manager.added
  distinct : ∀ first second firstWrapper secondWrapper,
    manager.pending.get first = some firstWrapper →
      manager.pending.get second = some secondWrapper →
      firstWrapper.serial = secondWrapper.serial → first = second
  known : ∀ taskId serial,
    manager.timeouts.get taskId = some serial ↔ manager.Due taskId serial

/-! ### Taking tasks out -/

section

variable {manager next : TaskManager Content}

theorem InStep.due_distinct (inStep : manager.InStep) {first second serial}
    (firstDue : manager.Due first serial) (secondDue : manager.Due second serial) :
    first = second := by
  obtain ⟨firstWrapper, firstPending, _, rfl⟩ := firstDue
  obtain ⟨secondWrapper, secondPending, _, same⟩ := secondDue
  exact inStep.distinct _ _ _ _ firstPending secondPending same.symm

variable {taskId : String}

theorem due_of_delete (taken : ∀ other, next.pending.get other =
      if other = taskId then none else manager.pending.get other) (other : String) (serial : ℕ) :
    next.Due other serial ↔ other ≠ taskId ∧ manager.Due other serial := by
  unfold Due
  rw [taken]
  by_cases same : other = taskId
  · simp [same]
  · simp [same]

/-- What takes a task out of the pending ones and cancels the deadline under its id. -/
structure Retires (manager next : TaskManager Content) (taskId : String) : Prop where
  pending : next.pending = manager.pending.delete taskId
  timeouts : next.timeouts = manager.timeouts.delete taskId
  added : next.added = manager.added

theorem Retires.get (retires : manager.Retires next taskId) (other : String) :
    next.pending.get other = if other = taskId then none else manager.pending.get other := by
  rw [retires.pending, OrderedMap.get_delete]

theorem InStep.retires {taskId} (inStep : manager.InStep) (retires : manager.Retires next taskId) :
    next.InStep := by
  have stays : ∀ other wrapper, next.pending.get other = some wrapper →
      manager.pending.get other = some wrapper := by
    intro other wrapper found
    rw [retires.get] at found
    split at found
    · cases found
    · exact found
  refine ⟨fun other wrapper found => ?_, fun first second _ _ firstFound secondFound => ?_,
    fun other serial => ?_⟩
  · rw [retires.added]
    exact inStep.earlier _ _ (stays _ _ found)
  · exact inStep.distinct _ _ _ _ (stays _ _ firstFound) (stays _ _ secondFound)
  · rw [due_of_delete retires.get, ← inStep.known, retires.timeouts, OrderedMap.get_delete]
    split
    · next same => simp [same]
    · next different => simp [different]

theorem Punctual.retires {taskId} (punctual : manager.Punctual) (inStep : manager.InStep)
    (retires : manager.Retires next taskId)
    (armed : next.armed = manager.armed.filter fun deadline =>
      decide (manager.timeouts.get taskId ≠ some deadline.serial)) : next.Punctual := by
  refine ⟨armed ▸ punctual.once.filter _, fun deadline => ?_⟩
  rw [armed, List.mem_filter, decide_eq_true_iff, punctual.exactly, due_of_delete retires.get,
    Ne, inStep.known]
  constructor
  · rintro ⟨due, notThis⟩
    refine ⟨fun same => ?_, due⟩
    exact notThis (same ▸ due)
  · rintro ⟨different, due⟩
    exact ⟨due, fun dueThis => different (inStep.due_distinct due dueThis)⟩

theorem kept_retires (inStep : manager.InStep) (punctual : manager.Punctual)
    (retires : manager.Retires next taskId)
    (armed : next.armed = manager.armed.filter fun deadline =>
      decide (manager.timeouts.get taskId ≠ some deadline.serial)) : next.InStep ∧ next.Punctual :=
  ⟨inStep.retires retires, punctual.retires inStep retires armed⟩

theorem kept_removePending (inStep : manager.InStep) (punctual : manager.Punctual)
    (taskId : String) :
    (manager.removePending taskId).2.InStep ∧ (manager.removePending taskId).2.Punctual := by
  unfold removePending
  split
  · exact ⟨inStep, punctual⟩
  · exact kept_retires inStep punctual ⟨rfl, rfl, rfl⟩ rfl

theorem kept_cancelTask (inStep : manager.InStep) (punctual : manager.Punctual) (now : JsNumber)
    (taskId : String) :
    (manager.cancelTask now taskId).2.InStep ∧ (manager.cancelTask now taskId).2.Punctual := by
  unfold cancelTask
  split
  · exact ⟨inStep, punctual⟩
  · exact kept_retires inStep punctual ⟨rfl, rfl, rfl⟩ rfl

theorem kept_processWrappers (answers : TaskAnswers Content) (now : JsNumber)
    (wrappers : List (TaskWrapper Content)) (inStep : manager.InStep)
    (punctual : manager.Punctual) :
    (processWrappers answers now wrappers manager).1.InStep ∧
      (processWrappers answers now wrappers manager).1.Punctual := by
  induction wrappers generalizing manager with
  | nil => exact ⟨inStep, punctual⟩
  | cons wrapper rest ih =>
    let running := { wrapper with lifecycle := .running, startedAt := some now }
    let failed := (manager.disarm wrapper.task.id).fail now .failed running
    let completed := (manager.disarm wrapper.task.id).complete now running
    have failedKept : failed.InStep ∧ failed.Punctual :=
      kept_retires inStep punctual ⟨rfl, rfl, rfl⟩ rfl
    have completedKept : completed.InStep ∧ completed.Punctual :=
      kept_retires inStep punctual ⟨rfl, rfl, rfl⟩ rfl
    rw [processWrappers]
    split
    · exact ih inStep punctual
    · split
      · exact ⟨inStep, punctual⟩
      · split
        · exact ih failedKept.1 failedKept.2
        · split
          · exact ih completedKept.1 completedKept.2
          · exact ih failedKept.1 failedKept.2

theorem kept_fire (inStep : manager.InStep) (punctual : manager.Punctual) (now : JsNumber)
    {deadline} (armed : deadline ∈ manager.armed) :
    (manager.fire now deadline).InStep ∧ (manager.fire now deadline).Punctual := by
  have due := (punctual.exactly deadline).mp armed
  have known := (inStep.known _ _).mpr due
  obtain ⟨wrapper, pending, -, -⟩ := due
  unfold fire expireTask
  simp only [pending]
  refine kept_retires inStep punctual ⟨rfl, rfl, rfl⟩ ?_
  show (manager.armed.erase deadline).filter _ = _
  rw [punctual.once.erase_eq_filter, List.filter_filter]
  refine List.filter_congr fun other _ => ?_
  by_cases same : other = deadline
  · simp [same, known]
  · simp [same]

/-! ### Clearing -/

theorem get_timeouts_foldl_disarm (taskIds : List String) (manager : TaskManager Content)
    (taskId : String) :
    (taskIds.foldl disarm manager).timeouts.get taskId =
      if taskId ∈ taskIds then none else manager.timeouts.get taskId := by
  induction taskIds generalizing manager with
  | nil => rfl
  | cons first rest ih =>
    rw [List.foldl_cons, ih]
    show (if _ then none else (manager.timeouts.delete first).get taskId) = _
    rw [OrderedMap.get_delete]
    by_cases here : taskId = first
    · simp [here]
    · simp [here]

theorem mem_armed_foldl_disarm {taskIds : List String} {manager : TaskManager Content} {deadline}
    (armed : deadline ∈ (taskIds.foldl disarm manager).armed) :
    deadline ∈ manager.armed ∧
      ∀ taskId ∈ taskIds, manager.timeouts.get taskId ≠ some deadline.serial := by
  induction taskIds generalizing manager with
  | nil => exact ⟨armed, fun _ inside => absurd inside List.not_mem_nil⟩
  | cons first rest ih =>
    obtain ⟨before, others⟩ := ih armed
    obtain ⟨inArmed, notFirst⟩ := List.mem_filter.mp before
    have notFirst := of_decide_eq_true notFirst
    refine ⟨inArmed, fun taskId inside => ?_⟩
    by_cases here : taskId = first
    · exact here ▸ notFirst
    · have later := others taskId ((List.mem_cons.mp inside).resolve_left here)
      rwa [show (manager.disarm first).timeouts.get taskId = manager.timeouts.get taskId by
        show (manager.timeouts.delete first).get taskId = _
        rw [OrderedMap.get_delete, if_neg here]] at later

theorem kept_of_empty (pending : next.pending = .empty)
    (timeouts : ∀ taskId, next.timeouts.get taskId = none) (armed : next.armed = []) :
    next.InStep ∧ next.Punctual := by
  have none : ∀ taskId wrapper, next.pending.get taskId ≠ some wrapper := by
    intro taskId wrapper found
    rw [pending] at found
    cases found
  have notDue : ∀ taskId serial, ¬ next.Due taskId serial := by
    rintro taskId serial ⟨wrapper, found, _⟩
    exact none _ _ found
  refine ⟨⟨fun _ _ found => absurd found (none _ _), fun _ _ _ _ found => absurd found (none _ _),
    fun taskId serial => ?_⟩, ⟨armed ▸ List.nodup_nil, fun deadline => ?_⟩⟩
  · rw [timeouts]
    exact iff_of_false (by simp) (notDue _ _)
  · rw [armed]
    exact iff_of_false List.not_mem_nil (notDue _ _)

theorem kept_clearPending (inStep : manager.InStep) (punctual : manager.Punctual) :
    manager.clearPending.InStep ∧ manager.clearPending.Punctual := by
  have pendingKey : ∀ {taskId serial}, manager.Due taskId serial →
      taskId ∈ manager.pending.entries.map Prod.fst := by
    rintro taskId serial ⟨wrapper, found, _⟩
    exact List.mem_map_of_mem ((OrderedMap.get_eq_some_iff _ _ _).mp found)
  refine kept_of_empty rfl (fun taskId => ?_) (List.eq_nil_iff_forall_not_mem.mpr ?_)
  · refine (get_timeouts_foldl_disarm _ manager taskId).trans ?_
    split
    · rfl
    · next notPending =>
      cases known : manager.timeouts.get taskId with
      | none => rfl
      | some serial => exact absurd (pendingKey ((inStep.known _ _).mp known)) notPending
  · intro deadline armed
    obtain ⟨before, unknown⟩ := mem_armed_foldl_disarm armed
    have due := (punctual.exactly deadline).mp before
    exact unknown _ (pendingKey due) ((inStep.known _ _).mpr due)

theorem kept_clear (inStep : manager.InStep) (punctual : manager.Punctual) :
    manager.clear.InStep ∧ manager.clear.Punctual := by
  refine kept_of_empty rfl (fun _ => rfl) (List.eq_nil_iff_forall_not_mem.mpr ?_)
  intro deadline armed
  obtain ⟨before, unknown⟩ := List.mem_filter.mp armed
  have known := (inStep.known _ _).mpr ((punctual.exactly deadline).mp before)
  exact of_decide_eq_true unknown
    (List.mem_map_of_mem ((OrderedMap.get_eq_some_iff _ _ _).mp known))

/-! ### Adding -/

section

variable {now : JsNumber} {task : ManagedTask Content} {timeout : Option JsNumber}

theorem get_pending_addTask (taskId : String) :
    (manager.addTask now task timeout).pending.get taskId =
      if taskId = task.id then some (manager.newWrapper now task timeout)
      else manager.pending.get taskId := by
  rw [← OrderedMap.get_set]
  unfold addTask
  split
  · rfl
  · rfl

theorem added_addTask : (manager.addTask now task timeout).added = manager.added + 1 := by
  unfold addTask
  split
  · rfl
  · rfl

theorem due_addTask (taskId : String) (serial : ℕ) :
    (manager.addTask now task timeout).Due taskId serial ↔
      if taskId = task.id then
        hasDeadline (timeout.getD manager.defaultTimeout) = true ∧ manager.added = serial
      else manager.Due taskId serial := by
  unfold Due
  rw [get_pending_addTask]
  split
  · simp [newWrapper]
  · rfl

theorem inStep_addTask (inStep : manager.InStep) (undue : ∀ serial, ¬ manager.Due task.id serial) :
    (manager.addTask now task timeout).InStep := by
  have old : ∀ {taskId wrapper}, taskId ≠ task.id →
      (manager.addTask now task timeout).pending.get taskId = some wrapper →
        manager.pending.get taskId = some wrapper := by
    intro taskId wrapper different found
    rwa [get_pending_addTask, if_neg different] at found
  have new : ∀ {taskId wrapper}, taskId = task.id →
      (manager.addTask now task timeout).pending.get taskId = some wrapper →
        wrapper.serial = manager.added := by
    intro taskId wrapper same found
    rw [get_pending_addTask, if_pos same] at found
    rw [← Option.some.inj found]
    rfl
  refine ⟨fun taskId wrapper found => ?_,
    fun first second firstWrapper secondWrapper firstFound secondFound same => ?_,
    fun taskId serial => ?_⟩
  · rw [added_addTask]
    by_cases this : taskId = task.id
    · rw [new this found]
      exact Nat.lt_succ_self _
    · exact (inStep.earlier _ _ (old this found)).trans (Nat.lt_succ_self _)
  · by_cases firstNew : first = task.id
    · by_cases secondNew : second = task.id
      · rw [firstNew, secondNew]
      · have earlier := inStep.earlier _ _ (old secondNew secondFound)
        rw [← same, new firstNew firstFound] at earlier
        exact absurd earlier (lt_irrefl _)
    · by_cases secondNew : second = task.id
      · have earlier := inStep.earlier _ _ (old firstNew firstFound)
        rw [same, new secondNew secondFound] at earlier
        exact absurd earlier (lt_irrefl _)
      · exact inStep.distinct _ _ _ _ (old firstNew firstFound) (old secondNew secondFound) same
  · rw [due_addTask]
    unfold addTask
    split
    · next deadline =>
      rw [OrderedMap.get_set]
      split
      · simp [deadline]
      · exact inStep.known _ _
    · next noDeadline =>
      rw [inStep.known]
      split
      · next same =>
        rw [same]
        exact iff_of_false (undue _) fun both => noDeadline both.1
      · rfl

theorem mem_armed_addTask (deadline : ArmedDeadline) :
    deadline ∈ (manager.addTask now task timeout).armed ↔
      deadline ∈ manager.armed ∨
        hasDeadline (timeout.getD manager.defaultTimeout) = true ∧
          deadline = ⟨manager.added, task.id⟩ := by
  unfold addTask
  split
  · next arms =>
    simp [arms]
  · next noDeadline =>
    simp [noDeadline]

theorem punctual_addTask_iff (inStep : manager.InStep) (punctual : manager.Punctual) :
    (∀ serial, ¬ manager.Due task.id serial) ↔ (manager.addTask now task timeout).Punctual := by
  constructor
  · intro undue
    have fresh : ⟨manager.added, task.id⟩ ∉ manager.armed := fun armed =>
      undue _ ((punctual.exactly _).mp armed)
    refine ⟨?_, fun deadline => ?_⟩
    · unfold addTask
      split
      · exact punctual.once.append (List.nodup_singleton _) (by simpa using fresh)
      · exact punctual.once
    · rw [mem_armed_addTask, due_addTask, punctual.exactly]
      obtain ⟨serial, taskId⟩ := deadline
      split
      · next same =>
        obtain rfl : taskId = task.id := same
        simp only [ArmedDeadline.mk.injEq, and_true]
        rw [or_iff_right (undue _)]
        exact and_congr_right fun _ => eq_comm
      · next different =>
        have notNew : ¬ (ArmedDeadline.mk serial taskId = ⟨manager.added, task.id⟩) :=
          fun same => different (ArmedDeadline.mk.inj same).2
        simp [notNew]
  · rintro after serial due
    -- The deadline of the task that is replaced stays armed.
    have armed : ⟨serial, task.id⟩ ∈ (manager.addTask now task timeout).armed :=
      (mem_armed_addTask _).mpr (.inl ((punctual.exactly ⟨serial, task.id⟩).mpr due))
    have dueAfter := (after.exactly _).mp armed
    rw [due_addTask, if_pos rfl] at dueAfter
    obtain ⟨wrapper, pending, -, rfl⟩ := due
    exact (inStep.earlier _ _ pending).ne dueAfter.2.symm

end

/-! ### What is retired -/

theorem keepRetired_cases {retired other} {wrapper found : TaskWrapper Content}
    (inside : ((keepRetired retired taskId wrapper).entries.get other).map (·.value) = some found) :
    other = taskId ∧ found = wrapper ∨
      (retired.entries.get other).map (·.value) = some found := by
  rw [keepRetired, BoundedMap.get_set] at inside
  split at inside
  · next same => exact .inl ⟨same, (Option.some.inj inside).symm⟩
  · next different =>
    refine .inr ?_
    rcases retired.makeRoom_cases 0 taskId with
      ⟨_, _, room⟩ | ⟨victim, _, _, _, _, _, room⟩ | ⟨_, room, _⟩
    · rw [room, OrderedMap.get_delete, if_neg different] at inside
      exact inside
    · rw [room, BoundedMap.get_evict] at inside
      split at inside
      · cases inside
      · exact inside
    · rwa [room] at inside

theorem expired_processWrappers {answers now wrappers wrapper}
    (expired : wrapper.lifecycle = .expired)
    (found : (processWrappers answers now wrappers manager).1.failedTask taskId = some wrapper) :
    manager.failedTask taskId = some wrapper := by
  induction wrappers generalizing manager with
  | nil => exact found
  | cons first rest ih =>
    have failed : ∀ running, ((manager.disarm first.task.id).fail now .failed running).failedTask
        taskId = some wrapper → manager.failedTask taskId = some wrapper := by
      intro running inside
      rcases keepRetired_cases inside with ⟨_, rfl⟩ | before
      · cases expired
      · exact before
    rw [processWrappers] at found
    split at found
    · exact ih found
    · split at found
      · exact found
      · split at found
        · exact failed _ (ih found)
        · split at found
          · have completed : ((manager.disarm first.task.id).complete now
                { first with lifecycle := .running, startedAt := some now }).failedTask taskId =
              some wrapper := ih found
            exact completed
          · exact failed _ (ih found)

theorem Punctual.expiresOwn (punctual : manager.Punctual) (event : TaskEvent Content) :
    manager.ExpiresOwn event := by
  intro next taken taskId wrapper found expired
  cases event with
  | addTask now task timeout =>
    cases taken
    refine .inl ?_
    have same : (manager.addTask now task timeout).failed = manager.failed := by
      unfold addTask
      split
      · rfl
      · rfl
    rwa [failedTask, same] at found
  | processPending answers now =>
    cases taken
    exact .inl (expired_processWrappers expired found)
  | removePending removed =>
    cases taken
    refine .inl ?_
    unfold removePending at found
    split at found
    · exact found
    · exact found
  | cancelTask now cancelled =>
    cases taken
    refine .inl ?_
    unfold cancelTask at found
    split at found
    · exact found
    · rcases keepRetired_cases found with ⟨_, rfl⟩ | before
      · cases expired
      · exact before
  | clearPending =>
    cases taken
    refine .inl ?_
    have same : ∀ (taskIds : List String) (from_ : TaskManager Content),
        (taskIds.foldl disarm from_).failed = from_.failed := by
      intro taskIds
      induction taskIds with
      | nil => exact fun _ => rfl
      | cons first rest ih => exact fun from_ => ih _
    rwa [failedTask, clearPending, same] at found
  | clear =>
    cases taken
    cases found
  | fire now deadline =>
    rw [machine] at taken
    split at taken
    · next armed =>
      cases taken
      obtain ⟨own, pending, -, serial⟩ := (punctual.exactly deadline).mp armed
      unfold fire expireTask at found
      simp only [pending] at found
      rcases keepRetired_cases found with ⟨rfl, rfl⟩ | before
      · exact .inr ⟨now, by rw [serial]⟩
      · exact .inl before
    · cases taken

theorem kept_step {event} (inStep : manager.InStep) (punctual : manager.Punctual)
    (undue : manager.AddsUndue event) (taken : machine manager event = some next) :
    next.InStep ∧ next.Punctual := by
  cases event with
  | addTask now task timeout =>
    cases taken
    have none := undue _ _ _ rfl
    exact ⟨inStep_addTask inStep none, (punctual_addTask_iff inStep punctual).mp none⟩
  | processPending answers now =>
    cases taken
    exact kept_processWrappers answers now _ inStep punctual
  | removePending taskId =>
    cases taken
    exact kept_removePending inStep punctual taskId
  | cancelTask now taskId =>
    cases taken
    exact kept_cancelTask inStep punctual now taskId
  | clearPending =>
    cases taken
    exact kept_clearPending inStep punctual
  | clear =>
    cases taken
    exact kept_clear inStep punctual
  | fire now deadline =>
    rw [machine] at taken
    split at taken
    · next armed =>
      cases taken
      exact kept_fire inStep punctual now armed
    · cases taken

theorem undue_of_punctual {event} (inStep : manager.InStep) (punctual : manager.Punctual)
    (taken : machine manager event = some next) (after : next.Punctual) :
    manager.AddsUndue event := by
  rintro now task timeout rfl
  cases taken
  exact (punctual_addTask_iff inStep punctual).mpr after

/-- In a run of a new manager the armed deadlines are always those of the pending tasks, and every
task that expires does so by its own, exactly where no task is added under an id whose task has a
deadline. -/
theorem deadlines_belong_iff (defaultTimeout : JsNumber) {last : TaskManager Content}
    {events : List (TaskEvent Content)} (run : Run machine { defaultTimeout } events last) :
    ((∀ reached, Run.Passes machine { defaultTimeout } events reached → reached.Punctual) ∧
      Run.Meets machine ExpiresOwn { defaultTimeout } events) ↔
      Run.Meets machine AddsUndue { defaultTimeout } events := by
  have new : ({ defaultTimeout } : TaskManager Content).InStep ∧
      ({ defaultTimeout } : TaskManager Content).Punctual := kept_of_empty rfl (fun _ => rfl) rfl
  have agree : ∀ (manager : TaskManager Content) event next,
      manager.InStep ∧ manager.Punctual → manager.Punctual →
      machine manager event = some next → (manager.AddsUndue event ↔ next.Punctual) :=
    fun _ _ _ kept _ taken => ⟨fun undue => (kept_step kept.1 kept.2 undue taken).2,
      undue_of_punctual kept.1 kept.2 taken⟩
  have keeps : ∀ (manager : TaskManager Content) event next,
      manager.InStep ∧ manager.Punctual → manager.AddsUndue event →
      machine manager event = some next → next.InStep ∧ next.Punctual :=
    fun _ _ _ kept undue taken => kept_step kept.1 kept.2 undue taken
  rw [← Run.meets_iff_passes_of_keeps agree keeps run new new.2]
  refine ⟨fun both => both.1, fun undue => ⟨undue, ?_⟩⟩
  exact undue.imp (fun _ event _ kept _ _ => kept.2.expiresOwn event)
    (fun _ _ _ kept taken met => keeps _ _ _ kept met taken) new

end

/-- The task with the id `task` and nothing to it. -/
def sampleTask : ManagedTask Unit := ⟨"task", 1, ()⟩

/-- The task is added again with more time, and expires by the deadline of the first time. -/
theorem older_deadline_expires :
    ∃ manager next : TaskManager Unit,
      Run machine {} [.addTask 0 sampleTask (some 100), .addTask 50 sampleTask (some 1000)]
        manager ∧
      machine manager (.fire 100 ⟨0, "task"⟩) = some next ∧
      (next.failedTask "task").map (fun wrapper => (wrapper.lifecycle, wrapper.serial)) =
        some (.expired, 1) ∧
      ¬ manager.Punctual ∧ ¬ manager.ExpiresOwn (.fire 100 ⟨0, "task"⟩) := by
  refine ⟨_, _, run_of_execute rfl, rfl, rfl, fun punctual => ?_, fun own => ?_⟩
  · have due := (punctual.exactly ⟨0, "task"⟩).mp List.mem_cons_self
    obtain ⟨wrapper, pending, -, serial⟩ := due
    cases Option.some.inj pending
    cases serial
  · rcases own _ rfl "task" _ rfl rfl with before | ⟨_, same⟩
    · cases before
    · cases same

theorem deadlines_belong_iff_requeued :
    (∃ last : TaskManager Unit, Run machine {}
      [.addTask 0 sampleTask none, .removePending "task", .addTask 10 sampleTask none,
        .fire 30010 ⟨1, "task"⟩] last) ∧
      ∀ reached : TaskManager Unit, Run.Passes machine {}
        [.addTask 0 sampleTask none, .removePending "task", .addTask 10 sampleTask none,
          .fire 30010 ⟨1, "task"⟩] reached → reached.Punctual := by
  refine ⟨⟨_, run_of_execute rfl⟩, ?_⟩
  have absent : ∀ {manager : TaskManager Unit} {now},
      manager.pending.get "task" = none → manager.AddsUndue (.addTask now sampleTask none) := by
    rintro manager now absent _ _ _ same _ ⟨_, pending, _⟩
    obtain ⟨-, rfl, -⟩ := TaskEvent.addTask.inj same
    cases absent.symm.trans pending
  exact ((deadlines_belong_iff 30000 (run_of_execute rfl)).mpr <|
    .cons (absent rfl) rfl <| .cons (fun _ _ _ same => by cases same) rfl <|
      .cons (absent rfl) rfl <| .cons (fun _ _ _ same => by cases same) rfl <| .nil _).1

end TaskManager

end Senars.Control
