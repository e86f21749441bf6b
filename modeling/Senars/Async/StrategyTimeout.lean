/-
This file is the timeout of a composed strategy. Each call of the body's `next` races a timer
of its own; when the timer is first the body is closed, which waits for the call that is
under way, and then the fallback goes on. Times are counted from the start, and whoever
consumes the tasks asks for the next one at once.

No timer is armed for the body as a whole. So the bound holds exactly where the first call
that its timer overtakes begins with all tasks so far in time, and settles, or where no timer
overtakes a call and the body ends in time.

How long the timer takes that is armed for a number of milliseconds, and whether it is first
where it fires as a call settles, are parameters.
-/

import Mathlib.Algebra.Order.Ring.Rat
import Mathlib.Order.Basic
import Mathlib.Tactic.Linarith

namespace Senars.Async

/-! ### Bodies -/

/-- What a call of `next` comes to. -/
inductive Outcome (Task : Type) where
  | yields (task : Task)
  | returns
  | fails
  deriving DecidableEq

/-- A call of `next` that settles, so long after it was made. -/
structure Settling (Task : Type) where
  after : ℚ
  nonneg : 0 ≤ after
  outcome : Outcome Task

/-- A generator: what its calls of `next` come to, one after the other, where they settle at all,
and how long it takes to close once it has yielded, where it closes at all. -/
structure AsyncBody (Task : Type) where
  next : ℕ → Option (Settling Task)
  closing : ℕ → Option ℚ := fun _ => some 0

/-- The timers there are. -/
structure Timers where
  delay : ℚ → ℚ
  first : ℕ → Bool

/-- How far a run of a composed strategy has come: it goes on, has ended as its body has, has
stopped with its body unfinished, waits for its body forever, or goes on as the fallback. -/
inductive Ending (Task : Type) where
  | running
  | finished (time : ℚ)
  | failed (time : ℚ)
  | stopped (time : ℚ)
  | waiting
  | fallback (time : ℚ) (strategy : AsyncBody Task)

section

variable {Task : Type} (timers : Timers) (ms : ℚ) (body : AsyncBody Task)
  (fallback : Option (AsyncBody Task)) (aborted : ℚ → Bool)

/-- Race a call of `next` against a timer; nothing where the timer is first. -/
def raceDeadline (index : ℕ) : Option (Settling Task) :=
  (body.next index).filter fun settling =>
    settling.after < timers.delay ms || settling.after = timers.delay ms && !timers.first index

/-- When the body has been closed that is waited for at a call which began at a time. -/
def closedAt (index : ℕ) (begun : ℚ) : Option ℚ :=
  (body.next index).bind fun settling =>
    match settling.outcome with
    | .yields _ => (body.closing index).map (begun + settling.after + ·)
    | _ => some (begun + settling.after)

/-- What follows a call that its timer overtakes. -/
def afterTimeout (index : ℕ) (begun : ℚ) : Ending Task :=
  match closedAt body index begun with
  | none => .waiting
  | some time =>
    match fallback with
    | some strategy => if aborted time then .stopped time else .fallback time strategy
    | none => .stopped time

/-- The tasks of the body that are yielded, with their times, from a call on which begins at a time,
and how far that comes in a number of calls. -/
def timeoutLoop : ℕ → ℕ → ℚ → List (ℚ × Task) × Ending Task
  | 0, _, _ => ([], .running)
  | calls + 1, index, begun =>
    match raceDeadline timers ms body index with
    | none => ([], afterTimeout body fallback aborted index begun)
    | some settling =>
      let time := begun + settling.after
      match settling.outcome with
      | .returns => ([], .finished time)
      | .fails => ([], .failed time)
      | .yields task =>
        let (later, ending) := timeoutLoop calls (index + 1) time
        ((time, task) :: later, ending)

def timeoutRun (calls : ℕ) : List (ℚ × Task) × Ending Task :=
  if aborted 0 then ([], .stopped 0) else timeoutLoop timers ms body fallback aborted calls 0 0

/-! ### What is promised -/

/-- When a call of `next` begins, where all before it have settled. -/
def beginning : ℕ → ℚ
  | 0 => 0
  | index + 1 => beginning index + ((body.next index).map (·.after)).getD 0

/-- A call yields a task. -/
def Yields (index : ℕ) : Prop :=
  ∃ settling, body.next index = some settling ∧ ∃ task, settling.outcome = .yields task

/-- The body on its own has ended by a time. -/
def FinishesBy (time : ℚ) : Prop :=
  ∃ index settling, (∀ earlier < index, Yields body earlier) ∧ body.next index = some settling ∧
    (∀ task, settling.outcome ≠ .yields task) ∧ beginning body index + settling.after ≤ time

/-- No task of the body is yielded late, and where the body has not ended in time the fallback
follows. -/
structure KeepsDeadline : Prop where
  inTime : ∀ calls, ∀ yielded ∈ (timeoutRun timers ms body fallback aborted calls).1, yielded.1 ≤ ms
  follows : ¬ FinishesBy body ms → ∃ calls time strategy,
    (timeoutRun timers ms body fallback aborted calls).2 = .fallback time strategy

/-- A call yields a task before its timer. -/
def Passes (index : ℕ) : Prop :=
  ∃ settling, raceDeadline timers ms body index = some settling ∧
    ∃ task, settling.outcome = .yields task

/-- The body is closed after a call, with a fallback given and the signal not aborted by then. -/
def FallsBack (index : ℕ) : Prop :=
  ∃ time, closedAt body index (beginning body index) = some time ∧ fallback.isSome = true ∧
    aborted time = false

/-- The condition on the body: the first call that its timer overtakes begins with all tasks in time
and is closed to fall back, or no call is overtaken and the body ends in time. Where the signal is
aborted from the start the body is not run, and must end in time by itself. -/
inductive BoundedByTimer : Prop
  | notRun (before : aborted 0 = true) (ends : FinishesBy body ms)
  | overtaken (index : ℕ) (run : aborted 0 = false)
      (before : ∀ earlier < index, Passes timers ms body earlier)
      (late : raceDeadline timers ms body index = none)
      (inTime : ∀ earlier < index, beginning body (earlier + 1) ≤ ms)
      (follows : FinishesBy body ms ∨ FallsBack body fallback aborted index)
  | ended (index : ℕ) (settling : Settling Task) (run : aborted 0 = false)
      (before : ∀ earlier < index, Passes timers ms body earlier)
      (last : raceDeadline timers ms body index = some settling)
      (ends : ∀ task, settling.outcome ≠ .yields task)
      (inTime : beginning body index + settling.after ≤ ms)

/-! ### The loop -/

variable {timers ms body fallback aborted}

variable {index : ℕ} {settling : Settling Task}

theorem next_of_race (inTime : raceDeadline timers ms body index = some settling) :
    body.next index = some settling := (Option.filter_eq_some_iff.mp inTime).1

theorem Passes.yields (passes : Passes timers ms body index) : Yields body index := by
  obtain ⟨settling, inTime, task, yielded⟩ := passes
  exact ⟨settling, next_of_race inTime, task, yielded⟩

theorem beginning_succ (next : body.next index = some settling) :
    beginning body (index + 1) = beginning body index + settling.after := by
  rw [beginning, next]
  rfl

theorem beginning_le_succ (index : ℕ) : beginning body index ≤ beginning body (index + 1) := by
  rw [beginning]
  cases body.next index with
  | none => simp
  | some settling =>
    have nonneg := settling.nonneg
    simpa using nonneg

theorem beginning_mono {first second : ℕ} (order : first ≤ second) :
    beginning body first ≤ beginning body second :=
  monotone_nat_of_le_succ beginning_le_succ order

theorem forall_passes_iff {last} (after : index ≤ last) :
    (∀ call, index ≤ call → call ≤ last → Passes timers ms body call) ↔
      Passes timers ms body index ∧
        ∀ call, index + 1 ≤ call → call ≤ last → Passes timers ms body call := by
  constructor
  · intro all
    exact ⟨all index le_rfl after, fun call later within => all call (by omega) within⟩
  · rintro ⟨here, rest⟩ call later within
    rcases eq_or_lt_of_le later with rfl | beyond
    · exact here
    · exact rest call beyond within

theorem timeoutLoop_of_not_passes (stops : ¬ Passes timers ms body index) (calls : ℕ) (begun : ℚ) :
    (timeoutLoop timers ms body fallback aborted calls index begun).1 = [] := by
  cases calls with
  | zero => rfl
  | succ calls =>
    rw [timeoutLoop]
    split
    · rfl
    · rename_i settling inTime
      split
      · rfl
      · rfl
      · rename_i task yielded
        exact absurd ⟨settling, inTime, task, yielded⟩ stops

theorem timeoutLoop_of_passes (passes : Passes timers ms body index) (calls : ℕ) :
    ∃ task, timeoutLoop timers ms body fallback aborted (calls + 1) index (beginning body index) =
      ((beginning body (index + 1), task) ::
        (timeoutLoop timers ms body fallback aborted calls (index + 1)
          (beginning body (index + 1))).1,
        (timeoutLoop timers ms body fallback aborted calls (index + 1)
          (beginning body (index + 1))).2) := by
  obtain ⟨settling, inTime, task, yielded⟩ := passes
  refine ⟨task, ?_⟩
  rw [timeoutLoop, inTime, beginning_succ (next_of_race inTime)]
  dsimp only
  rw [yielded]

theorem mem_times_timeoutLoop {calls time} :
    time ∈ (timeoutLoop timers ms body fallback aborted calls index
        (beginning body index)).1.map Prod.fst ↔
      ∃ last, index ≤ last ∧ last < index + calls ∧
        (∀ call, index ≤ call → call ≤ last → Passes timers ms body call) ∧
        time = beginning body (last + 1) := by
  induction calls generalizing index with
  | zero =>
    constructor
    · intro none
      cases none
    · rintro ⟨last, after, within, -⟩
      omega
  | succ calls ih =>
    by_cases passes : Passes timers ms body index
    · obtain ⟨task, step⟩ := timeoutLoop_of_passes passes
        calls
      rw [step, List.map_cons, List.mem_cons, ih]
      constructor
      · rintro (rfl | ⟨last, after, within, all, rfl⟩)
        · refine ⟨index, le_rfl, by omega, fun call later within => ?_, rfl⟩
          rwa [le_antisymm within later]
        · exact ⟨last, by omega, by omega, (forall_passes_iff (by omega)).mpr ⟨passes, all⟩, rfl⟩
      · rintro ⟨last, after, within, all, rfl⟩
        rcases eq_or_lt_of_le after with rfl | beyond
        · exact .inl rfl
        · exact .inr ⟨last, beyond, by omega, ((forall_passes_iff after).mp all).2, rfl⟩
    · rw [timeoutLoop_of_not_passes passes]
      constructor
      · intro none
        cases none
      · rintro ⟨last, after, -, all, -⟩
        exact absurd (all index le_rfl after) passes

/-- A run has come to its fallback. -/
def Ending.IsFallback (ending : Ending Task) : Prop :=
  ∃ time strategy, ending = .fallback time strategy

theorem isFallback_afterTimeout :
    (afterTimeout body fallback aborted index (beginning body index)).IsFallback ↔
      FallsBack body fallback aborted index := by
  unfold afterTimeout FallsBack Ending.IsFallback
  cases closedAt body index (beginning body index) with
  | none => simp
  | some time =>
    cases fallback with
    | none => simp
    | some strategy =>
      cases isAborted : aborted time <;> simp [isAborted]

theorem isFallback_timeoutLoop {calls} :
    (timeoutLoop timers ms body fallback aborted calls index
        (beginning body index)).2.IsFallback ↔
      ∃ last, index ≤ last ∧ last < index + calls ∧
        (∀ call, index ≤ call → call < last → Passes timers ms body call) ∧
        raceDeadline timers ms body last = none ∧ FallsBack body fallback aborted last := by
  induction calls generalizing index with
  | zero =>
    constructor
    · rintro ⟨time, strategy, running⟩
      cases running
    · rintro ⟨last, after, within, -⟩
      omega
  | succ calls ih =>
    by_cases passes : Passes timers ms body index
    · obtain ⟨task, step⟩ := timeoutLoop_of_passes passes calls
      rw [step, ih]
      constructor
      · rintro ⟨last, after, within, all, late, falls⟩
        refine ⟨last, by omega, by omega, fun call later before => ?_, late, falls⟩
        rcases eq_or_lt_of_le later with rfl | beyond
        · exact passes
        · exact all call beyond before
      · rintro ⟨last, after, within, all, late, falls⟩
        have beyond : index ≠ last := by
          rintro rfl
          obtain ⟨settling, inTime, -⟩ := passes
          rw [late] at inTime
          cases inTime
        exact ⟨last, by omega, by omega, fun call later before => all call (by omega) before, late,
          falls⟩
    · -- The loop stops at this call, so the call that is overtaken is this one.
      have only : (∃ last, index ≤ last ∧ last < index + (calls + 1) ∧
          (∀ call, index ≤ call → call < last → Passes timers ms body call) ∧
          raceDeadline timers ms body last = none ∧ FallsBack body fallback aborted last) ↔
          raceDeadline timers ms body index = none ∧ FallsBack body fallback aborted index := by
        constructor
        · rintro ⟨last, after, -, all, late, falls⟩
          rcases eq_or_lt_of_le after with rfl | beyond
          · exact ⟨late, falls⟩
          · exact absurd (all index le_rfl beyond) passes
        · rintro ⟨late, falls⟩
          exact ⟨index, le_rfl, by omega, fun call later before => by omega, late, falls⟩
      rw [only, timeoutLoop]
      split
      · rename_i late
        rw [isFallback_afterTimeout]
        exact (and_iff_right late).symm
      · rename_i settling inTime
        split
        · simp [Ending.IsFallback, inTime]
        · simp [Ending.IsFallback, inTime]
        · rename_i task yielded
          exact absurd ⟨settling, inTime, task, yielded⟩ passes

/-! ### The bound -/

theorem inTime_iff (run : aborted 0 = false) :
    (∀ calls, ∀ yielded ∈ (timeoutRun timers ms body fallback aborted calls).1, yielded.1 ≤ ms) ↔
      ∀ last, (∀ call ≤ last, Passes timers ms body call) → beginning body (last + 1) ≤ ms := by
  unfold timeoutRun
  rw [run]
  have times : ∀ (calls : ℕ) (time : ℚ), time ∈ (timeoutLoop timers ms body fallback aborted calls 0
      0).1.map Prod.fst ↔ _ := fun calls time => mem_times_timeoutLoop
  constructor
  · intro all last passes
    obtain ⟨yielded, isYielded, same⟩ := List.mem_map.mp ((times (last + 1) _).mpr
      ⟨last, Nat.zero_le _, by omega, fun call _ => passes call, rfl⟩)
    rw [← same]
    exact all (last + 1) yielded isYielded
  · intro all calls yielded isYielded
    obtain ⟨last, -, -, passes, same⟩ := (times calls _).mp (List.mem_map_of_mem isYielded)
    rw [same]
    exact all last fun call within => passes call (Nat.zero_le _) within

theorem follows_iff (run : aborted 0 = false) :
    (∃ calls time strategy,
        (timeoutRun timers ms body fallback aborted calls).2 = .fallback time strategy) ↔
      ∃ last, (∀ call < last, Passes timers ms body call) ∧
        raceDeadline timers ms body last = none ∧ FallsBack body fallback aborted last := by
  unfold timeoutRun
  rw [run]
  have comes : ∀ calls : ℕ, (timeoutLoop timers ms body fallback aborted calls 0
      0).2.IsFallback ↔ _ := fun calls => isFallback_timeoutLoop
  constructor
  · rintro ⟨calls, falls⟩
    obtain ⟨last, -, -, passes, late, closes⟩ := (comes calls).mp falls
    exact ⟨last, fun call before => passes call (Nat.zero_le _) before, late, closes⟩
  · rintro ⟨last, passes, late, closes⟩
    exact ⟨last + 1, (comes (last + 1)).mpr
      ⟨last, Nat.zero_le _, by omega, fun call _ before => passes call before, late, closes⟩⟩

theorem finishesBy_iff {time} (before : ∀ earlier < index, Passes timers ms body earlier)
    (last : raceDeadline timers ms body index = some settling)
    (ends : ∀ task, settling.outcome ≠ .yields task) :
    FinishesBy body time ↔ beginning body index + settling.after ≤ time := by
  constructor
  · rintro ⟨other, otherSettling, yields, next, otherEnds, inTime⟩
    have same : other = index := by
      rcases lt_trichotomy other index with earlier | same | later
      · obtain ⟨found, isFound, task, yielded⟩ := (before other earlier).yields
        rw [next] at isFound
        cases isFound
        exact absurd yielded (otherEnds task)
      · exact same
      · obtain ⟨found, isFound, task, yielded⟩ := yields index later
        rw [next_of_race last] at isFound
        cases isFound
        exact absurd yielded (ends task)
    subst same
    rw [next_of_race last] at next
    cases next
    exact inTime
  · intro inTime
    exact ⟨index, settling, fun earlier isEarlier => (before earlier isEarlier).yields,
      next_of_race last, ends, inTime⟩

theorem eq_of_overtaken {last} (before : ∀ earlier < index, Passes timers ms body earlier)
    (stops : ¬ Passes timers ms body index) (passes : ∀ call < last, Passes timers ms body call)
    (late : raceDeadline timers ms body last = none) : last = index := by
  rcases lt_trichotomy last index with earlier | same | later
  · obtain ⟨settling, inTime, -⟩ := before last earlier
    rw [late] at inTime
    cases inTime
  · exact same
  · exact absurd (passes index later) stops

theorem not_passes_of_late (late : raceDeadline timers ms body index = none) :
    ¬ Passes timers ms body index := by
  rintro ⟨settling, inTime, -⟩
  rw [late] at inTime
  cases inTime

theorem KeepsDeadline.bounded (keeps : KeepsDeadline timers ms body fallback aborted)
    (run : aborted 0 = false) (before : ∀ earlier < index, Passes timers ms body earlier)
    (stops : ¬ Passes timers ms body index) : BoundedByTimer timers ms body fallback aborted := by
  have inTime := (inTime_iff run).mp keeps.inTime
  cases raced : raceDeadline timers ms body index with
  | none =>
    refine .overtaken index run before raced (fun earlier isEarlier => inTime earlier
      fun call within => before call (lt_of_le_of_lt within isEarlier)) ?_
    by_cases finishes : FinishesBy body ms
    · exact .inl finishes
    · obtain ⟨last, passes, late, closes⟩ := (follows_iff run).mp (keeps.follows finishes)
      exact .inr (eq_of_overtaken before stops passes late ▸ closes)
  | some settling =>
    have ends : ∀ task, settling.outcome ≠ .yields task :=
      fun task yielded => stops ⟨settling, raced, task, yielded⟩
    refine .ended index settling run before raced ends ((finishesBy_iff before raced ends).mp ?_)
    by_contra unfinished
    obtain ⟨last, passes, late, -⟩ := (follows_iff run).mp (keeps.follows unfinished)
    rw [eq_of_overtaken before stops passes late, raced] at late
    cases late

variable (timers ms body fallback aborted)

/-- A timeout bounds its whole body exactly where the first call that its timer overtakes begins in
time and is closed to fall back, or no call is overtaken and the body ends in time. -/
theorem keepsDeadline_iff :
    KeepsDeadline timers ms body fallback aborted ↔
      BoundedByTimer timers ms body fallback aborted := by
  constructor
  · intro keeps
    cases run : aborted 0 with
    | true =>
      refine .notRun run ?_
      by_contra unfinished
      obtain ⟨calls, time, strategy, falls⟩ := keeps.follows unfinished
      rw [timeoutRun, run] at falls
      cases falls
    | false =>
      by_cases all : ∀ call, Passes timers ms body call
      · -- A body whose calls all pass has no end and is not left.
        exfalso
        have unfinished : ¬ FinishesBy body ms := by
          rintro ⟨index, settling, -, next, ends, -⟩
          obtain ⟨found, isFound, task, yielded⟩ := (all index).yields
          rw [next] at isFound
          cases isFound
          exact ends task yielded
        obtain ⟨last, -, late, -⟩ := (follows_iff run).mp (keeps.follows unfinished)
        exact not_passes_of_late late (all last)
      · classical
        have some := not_forall.mp all
        exact keeps.bounded run (fun earlier isEarlier => not_not.mp (Nat.find_min some isEarlier))
          (Nat.find_spec some)
  · rintro (⟨run, ends⟩ | ⟨index, run, before, late, inTime, follows⟩ |
      ⟨index, settling, run, before, last, ends, inTime⟩)
    · refine ⟨fun calls yielded isYielded => ?_, fun unfinished => absurd ends unfinished⟩
      rw [timeoutRun, run] at isYielded
      cases isYielded
    · refine ⟨(inTime_iff run).mpr fun last passes => ?_, fun unfinished => ?_⟩
      · refine inTime last (not_le.mp fun beyond => ?_)
        exact not_passes_of_late late (passes index beyond)
      · exact (follows_iff run).mpr ⟨index, before, late, follows.resolve_left unfinished⟩
    · refine ⟨(inTime_iff run).mpr fun other passes => ?_, fun unfinished => ?_⟩
      · have isEarlier : other < index := by
          by_contra beyond
          obtain ⟨found, isFound, task, yielded⟩ := passes index (not_lt.mp beyond)
          rw [last] at isFound
          cases isFound
          exact ends task yielded
        have nonneg := settling.nonneg
        have begun : beginning body (other + 1) ≤ beginning body index := beginning_mono isEarlier
        linarith only [nonneg, begun, inTime]
      · exact absurd ((finishesBy_iff before last ends).mpr inTime) unfinished

end

theorem no_delay : (0 : ℚ) ≤ 0 := le_rfl

/-- A body of two tasks, each of them after sixty milliseconds. -/
def twoSteps : AsyncBody String where
  next
    | 0 => some ⟨60, by norm_num, .yields "first"⟩
    | 1 => some ⟨60, by norm_num, .yields "second"⟩
    | _ => some ⟨0, no_delay, .returns⟩

/-- Timers that take as long as they are armed for, and lose where they are no earlier. -/
def exactTimers : Timers where
  delay ms := ms
  first _ := false

/-- Neither step takes a hundred milliseconds, and the second task is late. -/
theorem second_step_late : ¬ ∀ (ms : ℚ) (body fallback : AsyncBody String),
    KeepsDeadline exactTimers ms body (some fallback) fun _ => false := by
  intro always
  have keeps := always 100 twoSteps twoSteps
  have late := keeps.inTime 2 (120, "second") (by decide +kernel)
  exact absurd late (by norm_num)

end Senars.Async
