/-
This file is the circuit breaker and what its thresholds promise over whole runs, in which
calls are admitted and their outcomes recorded in any order.

Opening goes by the failures in a row, which every way into the closed state sets to zero, so
the failures that open a closed breaker are the last outcomes since it was closed. Closing goes
by the successes in a row, and those are not set to zero where an open breaker lets a call
through again: a success that arrives late, while the breaker is open, is counted among the
successes that close it.
-/

import Senars.Library.JsNumber
import Senars.Library.Runs

namespace Senars.Async

open Library

/-- `open` of the source is `opened` here. -/
inductive CircuitState where
  | closed
  | opened
  | halfOpen
  deriving DecidableEq

/-- `count >= threshold` -/
def reaches (count : ℕ) (threshold : JsNumber) : Bool :=
  JsNumber.lessEq threshold (.finite count)

structure CircuitBreakerConfig where
  failureThreshold : JsNumber := 5
  resetTimeoutMs : JsNumber := 30000
  successThreshold : JsNumber := 1

structure CircuitBreaker where
  state : CircuitState := .closed
  failures : ℕ := 0
  successes : ℕ := 0
  lastFailure : Option ℚ := none
  lastSuccess : Option ℚ := none

namespace CircuitBreaker

/-- `#to`: a breaker that opens out of the half-open state forgets its failures. -/
def moveTo (breaker : CircuitBreaker) (state : CircuitState) : CircuitBreaker :=
  if breaker.state = state then breaker
  else if breaker.state = .halfOpen ∧ state = .opened then
    { breaker with state := state, failures := 0 }
  else { breaker with state := state }

def close (breaker : CircuitBreaker) : CircuitBreaker :=
  { breaker with failures := 0, successes := 0 }.moveTo .closed

def reset (breaker : CircuitBreaker) : CircuitBreaker :=
  let forgotten := { breaker with failures := 0, successes := 0 }
  if breaker.state ≠ .closed then forgotten.moveTo .closed else forgotten

def halfOpen (breaker : CircuitBreaker) : CircuitBreaker :=
  { breaker with successes := 0 }.moveTo .halfOpen

/-- An open breaker whose reset timeout is past. -/
def Expired (config : CircuitBreakerConfig) (breaker : CircuitBreaker) (now : ℚ) : Prop :=
  breaker.state = .opened ∧
    ∃ failed ∈ breaker.lastFailure,
      JsNumber.lessEq config.resetTimeoutMs (.finite (now - failed)) = true

/-- Whether a call is admitted; an expired open breaker moves on first. -/
def canRequest (config : CircuitBreakerConfig) (breaker : CircuitBreaker) (now : ℚ) :
    Bool × CircuitBreaker :=
  if breaker.state ≠ .opened then (true, breaker)
  else
    match breaker.lastFailure with
    | some failed =>
      if JsNumber.lessEq config.resetTimeoutMs (.finite (now - failed)) then
        (true, breaker.moveTo .halfOpen)
      else (false, breaker)
    | none => (false, breaker)

/-- An outcome is counted, and the breaker closes or opens by it. -/
def record (config : CircuitBreakerConfig) (breaker : CircuitBreaker) (success : Bool) (now : ℚ) :
    CircuitBreaker :=
  if success then
    let counted := { breaker with
      successes := breaker.successes + 1, failures := 0, lastSuccess := some now }
    if counted.state = .halfOpen ∧ reaches counted.successes config.successThreshold then
      counted.close
    else counted
  else
    let counted := { breaker with
      failures := breaker.failures + 1, successes := 0, lastFailure := some now }
    if counted.state ≠ .opened ∧ reaches counted.failures config.failureThreshold then
      counted.moveTo .opened
    else if counted.state = .halfOpen then counted.moveTo .opened
    else counted

/-! ### What each operation does -/

theorem canRequest_cases (config : CircuitBreakerConfig) (breaker : CircuitBreaker) (now : ℚ) :
    (breaker.Expired config now ∧
      (breaker.canRequest config now).2 = { breaker with state := .halfOpen }) ∨
      (breaker.canRequest config now).2 = breaker := by
  unfold canRequest
  split
  · exact .inr rfl
  · rename_i isOpen
    have opened : breaker.state = .opened := not_not.mp isOpen
    split
    · rename_i failed last
      split
      · rename_i past
        refine .inl ⟨⟨opened, failed, last, past⟩, ?_⟩
        simp [moveTo, opened]
      · exact .inr rfl
    · exact .inr rfl

theorem lastFailure_moveTo (breaker : CircuitBreaker) (state : CircuitState) :
    (breaker.moveTo state).lastFailure = breaker.lastFailure := by
  unfold moveTo
  grind

theorem close_eq (breaker : CircuitBreaker) :
    breaker.close = { breaker with state := .closed, failures := 0, successes := 0 } := by
  unfold close moveTo
  split
  · rename_i closed
    rw [← closed]
  · rw [if_neg (by simp)]

theorem reset_eq (breaker : CircuitBreaker) : breaker.reset = breaker.close := by
  by_cases closed : breaker.state = .closed
  · refine (if_neg (not_not.mpr closed)).trans ?_
    rw [close_eq, ← closed]
  · exact if_pos closed

theorem halfOpen_eq (breaker : CircuitBreaker) :
    breaker.halfOpen = { breaker with state := .halfOpen, successes := 0 } := by
  unfold halfOpen moveTo
  split
  · rename_i already
    rw [← already]
  · rw [if_neg (by simp)]

theorem record_success (config : CircuitBreakerConfig) (breaker : CircuitBreaker) (now : ℚ) :
    (breaker.record config true now).failures = 0 ∧
      (breaker.state = .halfOpen ∧ reaches (breaker.successes + 1) config.successThreshold = true ∧
          (breaker.record config true now).state = .closed ∨
        (breaker.record config true now).state = breaker.state ∧
          (breaker.record config true now).successes = breaker.successes + 1) := by
  unfold record
  by_cases enough :
      breaker.state = .halfOpen ∧ reaches (breaker.successes + 1) config.successThreshold = true
  · rw [if_pos enough, close_eq]
    exact ⟨rfl, .inl ⟨enough.1, enough.2, rfl⟩⟩
  · rw [if_neg enough]
    exact ⟨rfl, .inr ⟨rfl, rfl⟩⟩

theorem record_failure (config : CircuitBreakerConfig) (breaker : CircuitBreaker) (now : ℚ) :
    (breaker.record config false now).successes = 0 ∧
      ((breaker.record config false now).state = .opened ∧
          (breaker.state = .closed →
            reaches (breaker.failures + 1) config.failureThreshold = true) ∨
        breaker.state = .closed ∧ (breaker.record config false now).state = .closed ∧
          (breaker.record config false now).failures = breaker.failures + 1) := by
  unfold record
  rw [if_neg Bool.false_ne_true]
  by_cases enough :
      breaker.state ≠ .opened ∧ reaches (breaker.failures + 1) config.failureThreshold = true
  · rw [if_pos enough]
    unfold moveTo
    rw [if_neg enough.1]
    split
    · exact ⟨rfl, .inl ⟨rfl, fun _ => enough.2⟩⟩
    · exact ⟨rfl, .inl ⟨rfl, fun _ => enough.2⟩⟩
  · rw [if_neg enough]
    split
    · rename_i probing
      have probing : breaker.state = .halfOpen := probing
      refine ⟨?_, .inl ⟨?_, fun closed => ?_⟩⟩
      · simp [moveTo, probing]
      · simp [moveTo, probing]
      · cases closed.symm.trans probing
    · rename_i notProbing
      by_cases closed : breaker.state = .closed
      · exact ⟨rfl, .inr ⟨closed, closed, rfl⟩⟩
      · have opened : breaker.state = .opened := by
          cases state : breaker.state with
          | closed => exact absurd state closed
          | opened => rfl
          | halfOpen => exact absurd state notProbing
        exact ⟨rfl, .inl ⟨opened, fun same => absurd same closed⟩⟩

end CircuitBreaker

/-! ### Runs -/

inductive BreakerEvent where
  | canRequest (now : ℚ)
  | record (success : Bool) (now : ℚ)
  | halfOpen
  | reset
  | close

/-- A breaker, with the outcomes that were recorded since it last entered the half-open state, and
since it was last closed. -/
structure WatchedBreaker where
  breaker : CircuitBreaker := {}
  sinceHalfOpen : List Bool := []
  sinceClosed : List Bool := []

/-- What an event records. -/
def BreakerEvent.outcome : BreakerEvent → List Bool
  | .record success _ => [success]
  | _ => []

/-- When the call failed whose outcome is recorded. -/
def BreakerEvent.failedAt : BreakerEvent → Option ℚ
  | .record false now => some now
  | _ => none

/-- Someone closes the breaker, whatever state it is in. -/
def BreakerEvent.closes : BreakerEvent → Bool
  | .reset | .close => true
  | _ => false

namespace WatchedBreaker

def next (config : CircuitBreakerConfig) (breaker : CircuitBreaker) :
    BreakerEvent → CircuitBreaker
  | .canRequest now => (breaker.canRequest config now).2
  | .record success now => breaker.record config success now
  | .halfOpen => breaker.halfOpen
  | .reset => breaker.reset
  | .close => breaker.close

/-- The outcomes are noted, and forgotten where the breaker enters the state they are counted
from. -/
def apply (config : CircuitBreakerConfig) (watched : WatchedBreaker) (event : BreakerEvent) :
    WatchedBreaker :=
  let breaker := next config watched.breaker event
  { breaker
    sinceHalfOpen :=
      if watched.breaker.state ≠ .halfOpen ∧ breaker.state = .halfOpen then []
      else watched.sinceHalfOpen ++ event.outcome
    sinceClosed :=
      if event.closes ∨ watched.breaker.state ≠ .closed ∧ breaker.state = .closed then []
      else watched.sinceClosed ++ event.outcome }

def machine (config : CircuitBreakerConfig) : Machine WatchedBreaker BreakerEvent :=
  fun watched event => some (watched.apply config event)

/-- The thresholds are kept where an event closes a half-open breaker or opens a closed one. -/
structure Honest (config : CircuitBreakerConfig) (watched : WatchedBreaker)
    (event : BreakerEvent) : Prop where
  closes : watched.breaker.state = .halfOpen →
    (next config watched.breaker event).state = .closed → event.closes = false →
      reaches ((watched.sinceHalfOpen ++ event.outcome).count true) config.successThreshold = true ∧
        false ∉ watched.sinceHalfOpen ++ event.outcome
  opens : watched.breaker.state = .closed →
    (next config watched.breaker event).state = .opened →
      ∃ earlier count, watched.sinceClosed ++ event.outcome =
          earlier ++ List.replicate count false ∧
        reaches count config.failureThreshold = true

/-- An expired open breaker lets a call through with no successes on its counter, or a single
success is enough to close it. -/
def StartsAfresh (config : CircuitBreakerConfig) (watched : WatchedBreaker)
    (event : BreakerEvent) : Prop :=
  ∀ now, event = .canRequest now → watched.breaker.Expired config now →
    watched.breaker.successes = 0 ∨ reaches 1 config.successThreshold = true

/-- While the breaker is closed, its failures are the last outcomes since it was. While it is
half-open, nothing but successes was recorded since it entered the state, and there are as many
of them as it counts. -/
structure Counts (config : CircuitBreakerConfig) (watched : WatchedBreaker) : Prop where
  failures : watched.breaker.state = .closed →
    ∃ earlier, watched.sinceClosed =
      earlier ++ List.replicate watched.breaker.failures false
  probes : watched.breaker.state = .halfOpen → false ∉ watched.sinceHalfOpen
  successes : watched.breaker.state = .halfOpen →
    watched.breaker.successes ≤ watched.sinceHalfOpen.count true ∨
      reaches 1 config.successThreshold = true

variable {config : CircuitBreakerConfig} {watched : WatchedBreaker} {event : BreakerEvent}

theorem reaches_mono {few many : ℕ} {threshold} (more : few ≤ many)
    (enough : reaches few threshold = true) : reaches many threshold = true := by
  refine JsNumber.lessEq_trans enough ?_
  simpa [JsNumber.lessEq] using more

theorem append_replicate_succ {since earlier count}
    (since_eq : since = earlier ++ List.replicate count false) :
    since ++ [false] = earlier ++ List.replicate (count + 1) false := by
  rw [since_eq, List.append_assoc, List.replicate_succ']

theorem Honest.of_same
    (same : (next config watched.breaker event).state = watched.breaker.state) :
    watched.Honest config event where
  closes probing closed := by
    rw [same, probing] at closed
    cases closed
  opens closed opened := by
    rw [same, closed] at opened
    cases opened

theorem Honest.of_closes (explicit : event.closes = true) : watched.Honest config event where
  closes _ _ notExplicit := by
    rw [explicit] at notExplicit
    cases notExplicit
  opens _ opened := by
    have closed : (next config watched.breaker event).state = .closed := by
      cases event with
      | reset => rw [next, CircuitBreaker.reset_eq, CircuitBreaker.close_eq]
      | close => rw [next, CircuitBreaker.close_eq]
      | canRequest now => cases explicit
      | record success now => cases explicit
      | halfOpen => cases explicit
    rw [closed] at opened
    cases opened

theorem Honest.of_probing (probing : (next config watched.breaker event).state = .halfOpen) :
    watched.Honest config event where
  closes _ closed := by
    rw [probing] at closed
    cases closed
  opens _ opened := by
    rw [probing] at opened
    cases opened

theorem Counts.honest (counts : watched.Counts config) : watched.Honest config event := by
  cases event with
  | canRequest now =>
    rcases watched.breaker.canRequest_cases config now with ⟨_, same⟩ | same
    · exact .of_probing (congrArg CircuitBreaker.state same)
    · exact .of_same (congrArg CircuitBreaker.state same)
  | record success now =>
    cases success with
    | true =>
      obtain ⟨-, ⟨probing, enough, _⟩ | ⟨same, _⟩⟩ := watched.breaker.record_success config now
      · refine ⟨fun _ _ _ => ⟨?_, ?_⟩, fun closed => ?_⟩
        · rw [BreakerEvent.outcome, List.count_append]
          rcases counts.successes probing with counted | single
          · exact reaches_mono (Nat.succ_le_succ counted) enough
          · exact reaches_mono (Nat.le_add_left 1 _) single
        · simpa [BreakerEvent.outcome] using counts.probes probing
        · cases closed.symm.trans probing
      · exact .of_same same
    | false =>
      obtain ⟨-, ⟨opened, enough⟩ | ⟨closed, stays, _⟩⟩ := watched.breaker.record_failure config now
      · refine ⟨fun _ closed => ?_, fun closed _ => ?_⟩
        · cases opened.symm.trans closed
        · obtain ⟨earlier, since_eq⟩ := counts.failures closed
          exact ⟨earlier, _, append_replicate_succ since_eq, enough closed⟩
      · exact .of_same (stays.trans closed.symm)
  | halfOpen => exact .of_probing (congrArg CircuitBreaker.state watched.breaker.halfOpen_eq)
  | reset => exact .of_closes rfl
  | close => exact .of_closes rfl

/-! ### What a step keeps -/

theorem Counts.of_opened (opened : (next config watched.breaker event).state = .opened) :
    (watched.apply config event).Counts config where
  failures closed := by cases opened.symm.trans closed
  probes probing := by cases opened.symm.trans probing
  successes probing := by cases opened.symm.trans probing

theorem Counts.of_closed (closed : (next config watched.breaker event).state = .closed)
    (noFailures : (next config watched.breaker event).failures = 0) :
    (watched.apply config event).Counts config where
  failures _ := by
    refine ⟨(watched.apply config event).sinceClosed, ?_⟩
    show _ = _ ++ List.replicate (next config watched.breaker event).failures false
    rw [noFailures, List.replicate_zero, List.append_nil]
  probes probing := by cases closed.symm.trans probing
  successes probing := by cases closed.symm.trans probing

theorem Counts.of_entering (before : watched.breaker.state ≠ .halfOpen)
    (probing : (next config watched.breaker event).state = .halfOpen)
    (fresh : (next config watched.breaker event).successes = 0 ∨
      reaches 1 config.successThreshold = true) :
    (watched.apply config event).Counts config := by
  have since : (watched.apply config event).sinceHalfOpen = [] := if_pos ⟨before, probing⟩
  refine ⟨fun closed => ?_, fun _ => ?_, fun _ => ?_⟩
  · cases probing.symm.trans closed
  · rw [since]
    exact List.not_mem_nil
  · exact fresh.imp_left fun none => none.le.trans (Nat.zero_le _)

theorem Counts.of_same (counts : watched.Counts config) (implicit : event.closes = false)
    (same : (next config watched.breaker event).state = watched.breaker.state)
    (failures : watched.breaker.state = .closed →
      (next config watched.breaker event).failures = 0 ∨
        event.outcome = [] ∧
          (next config watched.breaker event).failures = watched.breaker.failures ∨
        event.outcome = [false] ∧
          (next config watched.breaker event).failures = watched.breaker.failures + 1)
    (successes : watched.breaker.state = .halfOpen → false ∉ event.outcome ∧
      (next config watched.breaker event).successes ≤
        watched.breaker.successes + event.outcome.count true) :
    (watched.apply config event).Counts config := by
  refine ⟨fun closed => ?_, fun probing => ?_, fun probing => ?_⟩
  · have before : watched.breaker.state = .closed := same.symm.trans closed
    have since : (watched.apply config event).sinceClosed =
        watched.sinceClosed ++ event.outcome := by
      refine if_neg ?_
      simp [implicit, before]
    obtain ⟨earlier, since_eq⟩ := counts.failures before
    rw [since]
    show ∃ earlier, _ = earlier ++ List.replicate (next config watched.breaker event).failures false
    rcases failures before with none | ⟨nothing, kept⟩ | ⟨failed, counted⟩
    · exact ⟨_, by rw [none, List.replicate_zero, List.append_nil]⟩
    · exact ⟨earlier, by rw [nothing, kept, List.append_nil, since_eq]⟩
    · exact ⟨earlier, by rw [failed, counted, append_replicate_succ since_eq]⟩
  all_goals
    have before : watched.breaker.state = .halfOpen := same.symm.trans probing
    have since : (watched.apply config event).sinceHalfOpen =
        watched.sinceHalfOpen ++ event.outcome := if_neg fun both => both.1 before
    obtain ⟨noFailure, few⟩ := successes before
    rw [since]
  · exact fun inside => (List.mem_append.mp inside).elim (counts.probes before) noFailure
  · refine (counts.successes before).imp_left fun counted => ?_
    rw [List.count_append]
    exact few.trans (Nat.add_le_add_right counted _)

theorem Counts.step (counts : watched.Counts config) (afresh : watched.StartsAfresh config event) :
    (watched.apply config event).Counts config := by
  cases event with
  | canRequest now =>
    rcases watched.breaker.canRequest_cases config now with ⟨expired, same⟩ | same
    · refine .of_entering ?_ (congrArg CircuitBreaker.state same) ?_
      · rw [expired.1]
        decide
      · rw [next, same]
        exact afresh now rfl expired
    · refine counts.of_same rfl (congrArg CircuitBreaker.state same) (fun _ => ?_) fun _ => ⟨?_, ?_⟩
      · exact .inr (.inl ⟨rfl, congrArg CircuitBreaker.failures same⟩)
      · exact List.not_mem_nil
      · exact (congrArg CircuitBreaker.successes same).le
  | record success now =>
    cases success with
    | true =>
      obtain ⟨noFailures, ⟨_, _, closed⟩ | ⟨same, counted⟩⟩ :=
        watched.breaker.record_success config now
      · exact .of_closed closed noFailures
      · refine counts.of_same rfl same (fun _ => .inl noFailures) fun _ => ⟨?_, counted.le⟩
        simp [BreakerEvent.outcome]
    | false =>
      obtain ⟨-, ⟨opened, _⟩ | ⟨closed, stays, counted⟩⟩ :=
        watched.breaker.record_failure config now
      · exact .of_opened opened
      · refine counts.of_same rfl (stays.trans closed.symm) (fun _ => ?_) fun probing => ?_
        · exact .inr (.inr ⟨rfl, counted⟩)
        · cases closed.symm.trans probing
  | halfOpen =>
    have after : next config watched.breaker .halfOpen =
        { watched.breaker with state := .halfOpen, successes := 0 } := watched.breaker.halfOpen_eq
    by_cases probing : watched.breaker.state = .halfOpen
    · refine counts.of_same rfl (by rw [after, probing]) (fun closed => ?_) fun _ => ⟨?_, ?_⟩
      · cases closed.symm.trans probing
      · exact List.not_mem_nil
      · rw [after]
        exact Nat.zero_le _
    · exact .of_entering probing (by rw [after]) (.inl (by rw [after]))
  | reset =>
    have after : next config watched.breaker .reset = watched.breaker.close :=
      watched.breaker.reset_eq
    rw [CircuitBreaker.close_eq] at after
    exact .of_closed (by rw [after]) (by rw [after])
  | close =>
    have after : next config watched.breaker .close = _ := watched.breaker.close_eq
    exact .of_closed (by rw [after]) (by rw [after])

/-- Where every expired open breaker starts afresh, the thresholds are kept at every step of a
run. -/
theorem honest_of_startsAfresh (config : CircuitBreakerConfig) {events : List BreakerEvent}
    (afresh : Run.Meets (machine config) (StartsAfresh config) {} events) :
    Run.Meets (machine config) (Honest config) {} events := by
  have starts : Counts config {} := ⟨fun _ => ⟨[], rfl⟩, nofun, nofun⟩
  refine afresh.imp (fun watched event next counts _ _ => counts.honest) ?_ starts
  intro watched event next counts taken starting
  cases Option.some.inj taken
  exact counts.step starting

/-- Two calls are in flight when one fails and opens the breaker; the other succeeds after that,
and the one success of the next call closes a breaker that asks for two. -/
theorem late_success_closes :
    ∃ watched, Run (machine { failureThreshold := 1, successThreshold := 2 }) {}
        [.canRequest 0, .canRequest 0, .record false 1, .record true 2, .canRequest 30001]
        watched ∧
      ¬ watched.Honest { failureThreshold := 1, successThreshold := 2 } (.record true 30002) := by
  refine ⟨_, run_of_execute rfl, fun honest => ?_⟩
  have few := (honest.closes (by decide +kernel) (by decide +kernel) rfl).1
  exact absurd few (by decide +kernel)

theorem honest_of_startsAfresh_probe :
    Run.Meets (machine { failureThreshold := 1, successThreshold := 2 })
      (Honest { failureThreshold := 1, successThreshold := 2 }) {}
      [.canRequest 0, .record false 1, .canRequest 30001, .record true 30002,
        .record true 30003] := by
  refine honest_of_startsAfresh _ <| .cons ?_ rfl <| .cons nofun rfl <| .cons ?_ rfl <|
    .cons nofun rfl <| .cons nofun rfl <| .nil _
  · exact fun _ _ _ => .inl rfl
  · exact fun _ _ _ => .inl (by decide +kernel)

/-! ### An open breaker -/

theorem lastFailure_next (config : CircuitBreakerConfig) (breaker : CircuitBreaker)
    (event : BreakerEvent) :
    (next config breaker event).lastFailure = event.failedAt.or breaker.lastFailure := by
  cases event with
  | canRequest now =>
    rw [next]
    rcases breaker.canRequest_cases config now with ⟨_, same⟩ | same
    · rw [same]
      rfl
    · rw [same]
      rfl
  | record success now =>
    unfold next CircuitBreaker.record
    cases success with
    | true => grind [CircuitBreaker.close_eq, BreakerEvent.failedAt]
    | false => grind [CircuitBreaker.lastFailure_moveTo, BreakerEvent.failedAt]
  | halfOpen =>
    rw [next, CircuitBreaker.halfOpen_eq]
    rfl
  | reset =>
    rw [next, CircuitBreaker.reset_eq, CircuitBreaker.close_eq]
    rfl
  | close =>
    rw [next, CircuitBreaker.close_eq]
    rfl

theorem opened_next (config : CircuitBreakerConfig) (breaker : CircuitBreaker)
    (opened : (next config breaker event).state = .opened) :
    breaker.state = .opened ∨ event.failedAt.isSome := by
  cases event with
  | canRequest now =>
    rcases breaker.canRequest_cases config now with ⟨_, same⟩ | same
    · cases (congrArg CircuitBreaker.state same).symm.trans opened
    · exact .inl ((congrArg CircuitBreaker.state same).symm.trans opened)
  | record success now =>
    cases success with
    | true =>
      obtain ⟨-, ⟨_, _, closed⟩ | ⟨same, _⟩⟩ := breaker.record_success config now
      · cases closed.symm.trans opened
      · exact .inl (same.symm.trans opened)
    | false => exact .inr rfl
  | halfOpen => cases (congrArg CircuitBreaker.state breaker.halfOpen_eq).symm.trans opened
  | reset =>
    have closed := congrArg CircuitBreaker.state (breaker.reset_eq.trans breaker.close_eq)
    cases closed.symm.trans opened
  | close => cases (congrArg CircuitBreaker.state breaker.close_eq).symm.trans opened

/-- An open breaker knows when it failed last. -/
def Dated (watched : WatchedBreaker) : Prop :=
  watched.breaker.state = .opened → watched.breaker.lastFailure.isSome

theorem Dated.step (dated : watched.Dated) : (watched.apply config event).Dated := by
  intro opened
  have known : (watched.apply config event).breaker.lastFailure = _ :=
    lastFailure_next config watched.breaker event
  rw [known, Option.isSome_or, Bool.or_eq_true]
  exact (opened_next config watched.breaker opened).symm.imp_right dated

theorem lastFailure_of_run {first last : WatchedBreaker} {events}
    (run : Run (machine config) first events last) :
    last.breaker.lastFailure =
      (events.reverse.findSome? BreakerEvent.failedAt).or first.breaker.lastFailure := by
  induction run with
  | nil => rfl
  | @cons first second last event events taken _ ih =>
    cases Option.some.inj taken
    rw [ih, List.reverse_cons, List.findSome?_append, Option.or_assoc]
    refine congrArg _ ((lastFailure_next config first.breaker event).trans ?_)
    rw [List.findSome?_cons]
    cases event.failedAt <;> rfl

/-- In every run an open breaker lets a call through exactly where the reset timeout has passed
since the last failure that was recorded, in whatever state it was, and there was one. -/
theorem opened_admits_iff (config : CircuitBreakerConfig) {timeout : ℚ}
    (finite : config.resetTimeoutMs = .finite timeout) {events watched}
    (run : Run (machine config) {} events watched) (opened : watched.breaker.state = .opened) :
    ∃ failed, events.reverse.findSome? BreakerEvent.failedAt = some failed ∧
      ∀ now, (watched.breaker.canRequest config now).1 = true ↔ failed + timeout ≤ now := by
  have dated : watched.Dated :=
    run.keeps (fun _ _ _ held taken => Option.some.inj taken ▸ held.step) nofun
  obtain ⟨failed, known⟩ := Option.isSome_iff_exists.mp (dated opened)
  have last := (lastFailure_of_run run).symm.trans known
  rw [Option.or_none] at last
  refine ⟨failed, last, fun now => ?_⟩
  have past : JsNumber.lessEq (.finite timeout) (.finite (now - failed)) = true ↔
      failed + timeout ≤ now := by
    simp [JsNumber.lessEq, JsNumber.less, le_sub_iff_add_le']
  rw [CircuitBreaker.canRequest, if_neg (not_not.mpr opened), known, finite, ← past]
  grind

theorem opened_admits_iff_late :
    ∃ failed, [BreakerEvent.record false 1, .record false 7].reverse.findSome?
        BreakerEvent.failedAt = some failed ∧
      ∀ now, (({ state := .opened, failures := 2, lastFailure := some 7 : CircuitBreaker
        }.canRequest { failureThreshold := 1 } now).1 = true ↔ failed + 30000 ≤ now) :=
  have run : Run (machine { failureThreshold := 1 }) {} [.record false 1, .record false 7]
      ⟨{ state := .opened, failures := 2, lastFailure := some 7 }, [false, false],
        [false, false]⟩ := run_of_execute rfl
  opened_admits_iff _ rfl run rfl

end WatchedBreaker

end Senars.Async
