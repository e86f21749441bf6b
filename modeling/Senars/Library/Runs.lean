/-
This file is about runs: the states a machine goes through while events happen to
it, one after the other. What every step keeps, every run keeps, and a run may be
held to a condition on each of its steps.

The last part is the `for` loop of a generator: each turn of it yields values, leaves
a state, and may return, which ends the loops around it too. Two pieces of a
generator follow each other when the first does not return.
-/

import Mathlib.Data.List.Basic

namespace Senars.Library

section Machines

variable {State Event : Type}

/-- A machine: the state an event leads to, where the event can happen. -/
abbrev Machine (State Event : Type) := State → Event → Option State

/-- A list of events leads from one state to another. -/
inductive Run (machine : Machine State Event) : State → List Event → State → Prop
  | nil (state : State) : Run machine state [] state
  | cons {first second last : State} {event : Event} {events : List Event}
      (step : machine first event = some second) (rest : Run machine second events last) :
      Run machine first (event :: events) last

/-- The state a list of events leads to, where all of them can happen. -/
def execute (machine : Machine State Event) : State → List Event → Option State
  | state, [] => some state
  | state, event :: events => (machine state event).bind fun next => execute machine next events

section

variable {machine : Machine State Event} {first last : State} {events : List Event}

theorem run_of_execute (done : execute machine first events = some last) :
    Run machine first events last := by
  induction events generalizing first with
  | nil => exact Option.some.inj done ▸ .nil first
  | cons event rest ih =>
    obtain ⟨next, taken, later⟩ := Option.bind_eq_some_iff.mp done
    exact .cons taken (ih later)

theorem Run.append {middle later} (run : Run machine first events middle)
    (rest : Run machine middle later last) : Run machine first (events ++ later) last := by
  induction run with
  | nil => exact rest
  | cons taken _ ih => exact .cons taken (ih rest)

variable {condition further : State → Event → Prop} {invariant property : State → Prop}

theorem Run.keeps
    (step : ∀ state event next, invariant state → machine state event = some next → invariant next)
    (run : Run machine first events last) (holds : invariant first) : invariant last := by
  induction run with
  | nil => exact holds
  | cons taken _ ih => exact ih (step _ _ _ holds taken)

/-- Every state of the run, but for the last, and the event that happens there meet a
condition. -/
inductive Run.Meets (machine : Machine State Event) (condition : State → Event → Prop) :
    State → List Event → Prop
  | nil (state : State) : Run.Meets machine condition state []
  | cons {first second : State} {event : Event} {events : List Event}
      (meets : condition first event) (step : machine first event = some second)
      (rest : Run.Meets machine condition second events) :
      Run.Meets machine condition first (event :: events)

theorem Run.meets_of_forall {condition : Event → Prop} (run : Run machine first events last)
    (each : ∀ event ∈ events, condition event) :
    Run.Meets machine (fun _ event => condition event) first events := by
  induction run with
  | nil => exact .nil _
  | cons taken _ ih =>
    obtain ⟨met, later⟩ := List.forall_mem_cons.mp each
    exact .cons met taken (ih later)

theorem Run.Meets.at_event {before after state event}
    (meets : Run.Meets machine condition first (before ++ event :: after))
    (run : Run machine first before state) : condition state event := by
  induction run with
  | nil =>
    cases meets with
    | cons met _ _ => exact met
  | cons taken _ ih =>
    cases meets with
    | cons _ sameStep later =>
      cases taken.symm.trans sameStep
      exact ih later

theorem Run.Meets.and (meets : Run.Meets machine condition first events)
    (also : Run.Meets machine further first events) :
    Run.Meets machine (fun state event => condition state event ∧ further state event) first
      events := by
  induction meets with
  | nil => exact .nil _
  | cons met taken _ ih =>
    cases also with
    | cons alsoMet sameStep later =>
      cases taken.symm.trans sameStep
      exact .cons ⟨met, alsoMet⟩ taken (ih later)

theorem Run.Meets.imp
    (gives : ∀ state event next, invariant state → machine state event = some next →
      condition state event → further state event)
    (keeps : ∀ state event next, invariant state → machine state event = some next →
      condition state event → invariant next) (meets : Run.Meets machine condition first events)
    (holds : invariant first) : Run.Meets machine further first events := by
  induction meets with
  | nil => exact .nil _
  | cons met taken _ ih =>
    exact .cons (gives _ _ _ holds taken met) taken
      (ih (keeps _ _ _ holds taken met))

theorem Run.meets_congr (agree : ∀ state event, condition state event ↔ further state event) :
    Run.Meets machine condition first events ↔ Run.Meets machine further first events := by
  have same : condition = further :=
    funext fun state => funext fun event => propext (agree state event)
  rw [same]

theorem Run.meets_iff
    (agree : ∀ state event next, invariant state → machine state event = some next →
      (condition state event ↔ further state event))
    (keeps : ∀ state event next, invariant state → machine state event = some next →
      condition state event → invariant next) (holds : invariant first) :
    Run.Meets machine condition first events ↔ Run.Meets machine further first events := by
  constructor
  · intro meets
    exact meets.imp (fun _ _ _ held taken met => (agree _ _ _ held taken).mp met) keeps holds
  · intro meets
    refine meets.imp (fun _ _ _ held taken met => (agree _ _ _ held taken).mpr met) ?_ holds
    intro state event next held taken met
    exact keeps state event next held taken ((agree state event next held taken).mpr met)

/-- A state a run goes through: where one of the lists of events it begins with leads. -/
def Run.Passes (machine : Machine State Event) (first : State) (events : List Event)
    (reached : State) : Prop :=
  ∃ before after, events = before ++ after ∧ Run machine first before reached

theorem Run.meets_iff_passes_of_keeps
    (agree : ∀ state event next, invariant state → property state →
      machine state event = some next → (condition state event ↔ property next))
    (keeps : ∀ state event next, invariant state → condition state event →
      machine state event = some next → invariant next) (run : Run machine first events last)
    (holds : invariant first) (starts : property first) :
    Run.Meets machine condition first events ↔
      ∀ reached, Run.Passes machine first events reached → property reached := by
  constructor
  · rintro meets reached ⟨before, after, rfl, toReached⟩
    induction toReached with
    | nil => exact starts
    | cons taken _ ih =>
      cases meets with
      | cons met sameStep later =>
        cases taken.symm.trans sameStep
        cases run with
        | cons sameFirst rest =>
          cases taken.symm.trans sameFirst
          exact ih (keeps _ _ _ holds met taken)
            ((agree _ _ _ holds starts taken).mp met) rest later
  · intro always
    induction run with
    | nil => exact .nil _
    | cons taken _ ih =>
      have next := always _ ⟨[_], _, rfl, .cons taken (.nil _)⟩
      have met := (agree _ _ _ holds starts taken).mpr next
      refine .cons met taken (ih (keeps _ _ _ holds met taken) next ?_)
      rintro reached ⟨before, after, rfl, toReached⟩
      exact always reached ⟨_ :: before, after, rfl, .cons taken toReached⟩

theorem Run.meets_iff_passes
    (agree : ∀ state event next, property state → machine state event = some next →
      (condition state event ↔ property next)) (run : Run machine first events last)
    (holds : property first) :
    Run.Meets machine condition first events ↔
      ∀ reached, Run.Passes machine first events reached → property reached :=
  Run.meets_iff_passes_of_keeps (fun state event next _ => agree state event next)
    (fun _ _ _ _ _ _ => trivial) run trivial holds

theorem Run.last_iff_meets
    (agree : ∀ state event next, invariant state → machine state event = some next →
      (property next ↔ property state ∧ condition state event))
    (keeps : ∀ state event next, invariant state → machine state event = some next → invariant next)
    (run : Run machine first events last) (holds : invariant first) :
    property last ↔ property first ∧ Run.Meets machine condition first events := by
  induction run with
  | nil => exact ⟨fun ends => ⟨ends, .nil _⟩, fun both => both.1⟩
  | cons taken _ ih =>
    rw [ih (keeps _ _ _ holds taken), agree _ _ _ holds taken]
    constructor
    · rintro ⟨⟨starts, met⟩, later⟩
      exact ⟨starts, .cons met taken later⟩
    · rintro ⟨starts, meets⟩
      cases meets with
      | cons met sameStep later =>
        cases taken.symm.trans sameStep
        exact ⟨⟨starts, met⟩, later⟩

theorem Run.keeps_of_meets (step : ∀ state event next, invariant state → condition state event →
      machine state event = some next → invariant next) (run : Run machine first events last)
    (meets : Run.Meets machine condition first events) (holds : invariant first) :
    invariant last := by
  induction run with
  | nil => exact holds
  | cons taken _ ih =>
    cases meets with
    | cons met sameStep later =>
      cases taken.symm.trans sameStep
      exact ih later (step _ _ _ holds met taken)

theorem Run.relates (relation : State → State → Prop) (refl : ∀ state, relation state state)
    (trans : ∀ first second third, relation first second → relation second third →
      relation first third)
    (step : ∀ state event next, condition state event → machine state event = some next →
      relation state next) (run : Run machine first events last)
    (meets : Run.Meets machine condition first events) : relation first last := by
  induction run with
  | nil => exact refl _
  | cons taken _ ih =>
    cases meets with
    | cons met sameStep later =>
      cases taken.symm.trans sameStep
      exact trans _ _ _ (step _ _ _ met taken) (ih later)

theorem Run.Meets.of_append {before after middle}
    (meets : Run.Meets machine condition first (before ++ after))
    (run : Run machine first before middle) :
    Run.Meets machine condition first before ∧ Run.Meets machine condition middle after := by
  induction run with
  | nil => exact ⟨.nil _, meets⟩
  | cons taken _ ih =>
    cases meets with
    | cons met sameStep later =>
      cases taken.symm.trans sameStep
      obtain ⟨early, late⟩ := ih later
      exact ⟨.cons met taken early, late⟩

/-- Two states a run goes through, the one before the other. -/
def Run.PassesBoth (machine : Machine State Event) (first : State) (events : List Event)
    (early late : State) : Prop :=
  ∃ before between after, events = before ++ (between ++ after) ∧ Run machine first before early ∧
    Run machine early between late

theorem Run.meets_iff_relates {relation : State → State → Prop}
    (refl : ∀ state, relation state state)
    (trans : ∀ first second third, relation first second → relation second third →
      relation first third) (agree : ∀ state event next, machine state event = some next →
      (condition state event ↔ relation state next)) (run : Run machine first events last) :
    Run.Meets machine condition first events ↔
      ∀ early late, Run.PassesBoth machine first events early late → relation early late := by
  constructor
  · rintro meets early late ⟨before, between, after, rfl, toEarly, toLate⟩
    have meetsBetween := ((meets.of_append toEarly).2.of_append toLate).1
    exact toLate.relates relation refl trans
      (fun state event next met taken => (agree state event next taken).mp met) meetsBetween
  · intro related
    induction run with
    | nil => exact .nil _
    | cons taken _ ih =>
      have met := (agree _ _ _ taken).mpr
        (related _ _ ⟨[], [_], _, rfl, .nil _, .cons taken (.nil _)⟩)
      refine .cons met taken (ih fun early late passes => ?_)
      obtain ⟨before, between, after, rfl, toEarly, toLate⟩ := passes
      exact related early late ⟨_ :: before, between, after, rfl, .cons taken toEarly, toLate⟩

end

end Machines

/-! ### Loops -/

section Loops

variable {Value State Item : Type}

/-- What a piece of a generator did: the values it yielded, the state it left, and whether it
returned. -/
structure Flow (Value State : Type) where
  yielded : List Value
  state : State
  returned : Bool

namespace Flow

/-- A piece that yields nothing and goes on. -/
def pass (state : State) : Flow Value State := ⟨[], state, false⟩

/-- A piece that returns and yields nothing. -/
def exit (state : State) : Flow Value State := ⟨[], state, true⟩

/-- A piece and then, when it does not return, what follows it. -/
def next (turn : Flow Value State) (later : State → Flow Value State) : Flow Value State :=
  if turn.returned then turn
  else ⟨turn.yielded ++ (later turn.state).yielded, (later turn.state).state,
    (later turn.state).returned⟩

/-- A loop over a list. -/
def forOf (body : State → Item → Flow Value State) : State → List Item → Flow Value State
  | state, [] => pass state
  | state, item :: rest => (body state item).next fun after => forOf body after rest

section

variable {turn : Flow Value State} {later : State → Flow Value State}

theorem next_of_returned (returned : turn.returned = true) : turn.next later = turn :=
  if_pos returned

theorem next_of_going (going : turn.returned = false) :
    turn.next later = ⟨turn.yielded ++ (later turn.state).yielded, (later turn.state).state,
      (later turn.state).returned⟩ :=
  if_neg (going ▸ Bool.false_ne_true)

@[simp] theorem exit_next (state : State) : (exit state).next later = exit state := rfl

@[simp] theorem pass_next (state : State) : (pass state).next later = later state := rfl

end

theorem forOf_keeps {body : State → Item → Flow Value State} {invariant : State → Prop}
    (step : ∀ state item, invariant state → invariant (body state item).state)
    (state : State) (items : List Item) (holds : invariant state) :
    invariant (forOf body state items).state := by
  induction items generalizing state with
  | nil => exact holds
  | cons item rest ih =>
    show invariant ((body state item).next fun after => forOf body after rest).state
    cases ended : (body state item).returned with
    | true =>
      rw [next_of_returned ended]
      exact step state item holds
    | false =>
      rw [next_of_going ended]
      exact ih _ (step state item holds)

end Flow

/-! ### Loops over a list -/

/-- Every turn of a fold over a list meets a condition on the state it begins with. -/
def Turns (body : State → Item → State) (condition : State → Item → Prop) :
    State → List Item → Prop
  | _, [] => True
  | state, item :: rest => condition state item ∧ Turns body condition (body state item) rest

theorem Turns.keeps {body} {condition : State → Item → Prop} {invariant : State → Prop}
    (step : ∀ state item, invariant state → condition state item → invariant (body state item))
    {state : State} {items : List Item} (turns : Turns body condition state items)
    (holds : invariant state) : invariant (items.foldl body state) := by
  induction items generalizing state with
  | nil => exact holds
  | cons item rest ih =>
    exact ih turns.2 (step state item holds turns.1)

end Loops

end Senars.Library
