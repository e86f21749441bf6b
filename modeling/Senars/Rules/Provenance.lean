/-
This file says when every derivation has its provenance.

One recorder has one open record, and whoever concludes something adds a step to
the record that is open then. As long as that is the record of its own sweep, and
no sweep begins while a record with steps is open, every result has one step and
every record is about one pair of premises. Staged work never has a record of its
own, so what it concludes is in another's record or in none.
-/

import Senars.Rules.Sweeps

namespace Senars.Rules

open Library Terms Control DerivationRecorder Senars.Algebra

/-! ### What is kept -/

/-- The result of a derivation has a step. -/
def HasStep (recorder : DerivationRecorder) (derivation : Derivation) : Prop :=
  ∃ recorded ∈ recorder.steps, recorded.result = derivation.number ∧
    States recorded.step derivation.ruleId (derivation.p1, derivation.p2) derivation.result.term

/-- The results a phase still has to hand over. -/
def Phase.held : Phase → List Derivation
  | .rules _ => []
  | .models answers => answers.flatMap fun answer => answer.2.getD []
  | .handing rest => rest

/-- The results a sweep has not handed over yet. -/
def Sweep.held (sweep : Sweep) : List Derivation :=
  sweep.seen.entries.map Prod.snd ++ sweep.phase.held

/-- What every state keeps: a recorder in order, records that know the sweep that opened them,
and a step for every result that is held or was yielded. -/
structure Provenanced (recorder : DerivationRecorder) (results begun : Nat)
    (sweeps : Caller → Option Sweep) (yielded : List Derivation) : Prop where
  inOrder : recorder.Kept results
  opener : ∀ record, recorder.opened = some record → record.sweep < begun ∧
    ∀ caller sweep, sweeps caller = some sweep → sweep.number = some record.sweep →
      record.premises = (sweep.pair.p1, sweep.pair.p2)
  numbers : ∀ caller sweep, sweeps caller = some sweep → ∀ number, sweep.number = some number →
    number < begun
  held : ∀ caller sweep, sweeps caller = some sweep → ∀ derivation ∈ sweep.held,
    HasStep recorder derivation
  given : ∀ derivation ∈ yielded, HasStep recorder derivation

section

variable {recorder after : DerivationRecorder} {results more begun : Nat}
  {sweeps : Caller → Option Sweep} {yielded : List Derivation}

theorem HasStep.mono {derivation} (has : HasStep recorder derivation)
    (grows : ∀ recorded ∈ recorder.steps, recorded ∈ after.steps) : HasStep after derivation := by
  obtain ⟨recorded, member, content⟩ := has
  exact ⟨recorded, grows recorded member, content⟩

theorem Provenanced.grow (kept : Provenanced recorder results begun sweeps yielded)
    (afterKept : after.Kept more)
    (grows : ∀ recorded ∈ recorder.steps, recorded ∈ after.steps)
    (opened : ∀ record, after.opened = some record → ∃ old, recorder.opened = some old ∧
      record.premises = old.premises ∧ record.sweep = old.sweep) :
    Provenanced after more begun sweeps yielded where
  inOrder := afterKept
  opener record isOpen := by
    obtain ⟨old, wasOpen, premises, sweep⟩ := opened record isOpen
    rw [premises, sweep]
    exact kept.opener old wasOpen
  numbers := kept.numbers
  held caller sweep found derivation member :=
    (kept.held caller sweep found derivation member).mono grows
  given derivation member := (kept.given derivation member).mono grows

theorem Provenanced.update (kept : Provenanced recorder results begun sweeps yielded)
    {caller changed} (fits : ∀ sweep, changed = some sweep →
      (∀ number, sweep.number = some number → number < begun) ∧
      (∀ record, recorder.opened = some record → sweep.number = some record.sweep →
        record.premises = (sweep.pair.p1, sweep.pair.p2)) ∧
      ∀ derivation ∈ sweep.held, HasStep recorder derivation) :
    Provenanced recorder results begun (Function.update sweeps caller changed) yielded := by
  have either : ∀ other sweep, Function.update sweeps caller changed other = some sweep →
      changed = some sweep ∨ sweeps other = some sweep := by
    intro other sweep found
    by_cases same : other = caller
    · subst same
      have updated : Function.update sweeps other changed other = changed :=
        Function.update_self _ _ _
      exact .inl (updated.symm.trans found)
    · exact .inr ((Function.update_of_ne same _ _).symm.trans found)
  exact {
    inOrder := kept.inOrder
    opener := fun record isOpen => ⟨(kept.opener record isOpen).1, fun other sweep found number =>
      (either other sweep found).elim (fun new => (fits sweep new).2.1 record isOpen number)
        fun old => (kept.opener record isOpen).2 other sweep old number⟩
    numbers := fun other sweep found =>
      (either other sweep found).elim (fun new => (fits sweep new).1) (kept.numbers other sweep)
    held := fun other sweep found =>
      (either other sweep found).elim (fun new => (fits sweep new).2.2) (kept.held other sweep)
    given := kept.given }

theorem Provenanced.onward (kept : Provenanced recorder results begun sweeps yielded)
    {caller sweep} (found : sweeps caller = some sweep) (onward : Sweep)
    (pair : onward.pair = sweep.pair) (number : onward.number = sweep.number)
    (held : ∀ derivation ∈ onward.held, HasStep recorder derivation) :
    Provenanced recorder results begun (Function.update sweeps caller (some onward)) yielded := by
  refine kept.update fun other same => ?_
  cases same
  rw [number, pair]
  exact ⟨kept.numbers caller sweep found, fun record isOpen own =>
    (kept.opener record isOpen).2 caller sweep found own, held⟩

theorem Provenanced.drop (kept : Provenanced recorder results begun sweeps yielded)
    (caller : Caller) :
    Provenanced recorder results begun (Function.update sweeps caller none) yielded :=
  kept.update fun _ same => absurd same (by simp)

theorem Provenanced.yield (kept : Provenanced recorder results begun sweeps yielded) {more}
    (each : ∀ derivation ∈ more, HasStep recorder derivation) :
    Provenanced recorder results begun sweeps (yielded ++ more) :=
  { kept with
    given := fun derivation member =>
      (List.mem_append.mp member).elim (kept.given derivation) (each derivation) }

theorem Provenanced.finish (kept : Provenanced recorder results begun sweeps yielded)
    (outside : Outside) :
    Provenanced (recorder.finish outside) results begun sweeps yielded :=
  kept.grow kept.inOrder.finish
    (fun _ member => (steps_finish kept.inOrder.enabled).symm ▸ member)
    fun record isOpen => absurd (finish_opened.symm.trans isOpen) (Option.some_ne_none record).symm

theorem Provenanced.begin (kept : Provenanced recorder results begun sweeps yielded)
    (outside : Outside) (caller : Caller) {sweep} (cycle : JsNumber)
    (empty : recorder.openSteps = []) (number : sweep.number = some begun)
    (held : sweep.held = []) :
    Provenanced (recorder.begin outside (sweep.pair.p1, sweep.pair.p2) cycle begun) results
      (begun + 1) (Function.update sweeps caller (some sweep)) yielded := by
  have grows : ∀ recorded ∈ recorder.steps, recorded ∈
      (recorder.begin outside (sweep.pair.p1, sweep.pair.p2) cycle begun).steps :=
    fun _ member => (steps_begin _ cycle begun empty).symm ▸ member
  obtain ⟨fresh, isOpen, _, premises, opener⟩ :=
    begin_opened outside kept.inOrder.enabled (sweep.pair.p1, sweep.pair.p2) cycle begun
  have begunKept : Provenanced
      (recorder.begin outside (sweep.pair.p1, sweep.pair.p2) cycle begun) results (begun + 1)
      sweeps yielded := {
    inOrder := kept.inOrder.begin _ cycle begun empty
    opener := by
      intro record otherOpen
      cases isOpen.symm.trans otherOpen
      refine ⟨opener ▸ Nat.lt_succ_self begun, fun other old found same => ?_⟩
      exact absurd (kept.numbers other old found _ same) (by omega)
    numbers := fun other old found number same =>
      Nat.lt_succ_of_lt (kept.numbers other old found number same)
    held := fun other old found derivation member =>
      (kept.held other old found derivation member).mono grows
    given := fun derivation member => (kept.given derivation member).mono grows }
  refine begunKept.update fun other same => ?_
  cases same
  refine ⟨fun given same => ?_, fun record otherOpen _ => ?_, fun derivation member => ?_⟩
  · cases number.symm.trans same
    exact Nat.lt_succ_self begun
  · cases isOpen.symm.trans otherOpen
    exact premises
  · exact absurd (held ▸ member) List.not_mem_nil

/-! ### Recording in the record of one's own -/

/-- A recorder after results were recorded in the record of their own premises. -/
structure RecordedIn (recorder after : DerivationRecorder) (record : OpenRecord) (count : Nat) :
    Prop where
  grows : ∀ recorded ∈ recorder.steps, recorded ∈ after.steps
  limit : after.maxStepsPerRecord = recorder.maxStepsPerRecord
  opened : ∃ longer, after.opened = some longer ∧
    longer.steps.length = record.steps.length + count ∧ longer.premises = record.premises ∧
    longer.sweep = record.sweep

theorem RecordedIn.trans {later record longer count further}
    (first : RecordedIn recorder after record count) (isOpen : after.opened = some longer)
    (second : RecordedIn after later longer further) :
    RecordedIn recorder later record (count + further) := by
  obtain ⟨same, sameOpen, length, premises, sweep⟩ := first.opened
  cases sameOpen.symm.trans isOpen
  obtain ⟨last, lastOpen, lastLength, lastPremises, lastSweep⟩ := second.opened
  exact ⟨fun recorded member => second.grows recorded (first.grows recorded member),
    second.limit.trans first.limit, last, lastOpen, by omega, lastPremises.trans premises,
    lastSweep.trans sweep⟩

variable {record : OpenRecord}

theorem RecordedIn.provenanced {count} (recorded : RecordedIn recorder after record count)
    (kept : Provenanced recorder results begun sweeps yielded)
    (isOpen : recorder.opened = some record) (afterKept : after.Kept more) :
    Provenanced after more begun sweeps yielded := by
  refine kept.grow afterKept recorded.grows fun other otherOpen => ?_
  obtain ⟨longer, longerOpen, _, premises, sweep⟩ := recorded.opened
  cases longerOpen.symm.trans otherOpen
  exact ⟨record, isOpen, premises, sweep⟩

theorem record_own (outside : Outside) (kept : recorder.Kept results)
    (isOpen : recorder.opened = some record)
    (room : record.steps.length < recorder.maxStepsPerRecord) (derivation : Derivation)
    (own : record.premises = (derivation.p1, derivation.p2))
    (number : derivation.number = results) (truthFnName : Option String) :
    (recorder.record outside derivation.ruleId derivation.p1 derivation.p2 derivation.result
        truthFnName results).Kept (results + 1) ∧
      RecordedIn recorder (recorder.record outside derivation.ruleId derivation.p1 derivation.p2
        derivation.result truthFnName results) record 1 ∧
      HasStep (recorder.record outside derivation.ruleId derivation.p1 derivation.p2
        derivation.result truthFnName results) derivation := by
  obtain ⟨after, _, afterOpen, longer, premises, sweep, _⟩ :=
    record_opened outside isOpen kept.enabled room derivation.ruleId derivation.p1
      derivation.p2 derivation.result truthFnName results
  obtain ⟨afterKept, step, appended, stated⟩ :=
    kept.record outside isOpen room own derivation.ruleId derivation.result truthFnName
  refine ⟨afterKept, ⟨fun _ member => ?_, record_limit .., after, afterOpen, ?_, premises, sweep⟩,
    ⟨step, results⟩, ?_, number.symm, stated⟩
  · rw [appended]
    exact List.mem_append_left _ member
  · rw [longer, List.length_append, List.length_singleton]
  · rw [appended]
    exact List.mem_append_right _ (List.mem_singleton_self _)

theorem recordAll_own (outside : Outside) {sweep} (rule : ModelRule) (stamp : Stamp)
    (tasks : List ModelTask) (kept : recorder.Kept results)
    (isOpen : recorder.opened = some record)
    (own : record.premises = (sweep.pair.p1, sweep.pair.p2))
    (room : record.steps.length + tasks.length ≤ recorder.maxStepsPerRecord) :
    (recordAll outside recorder (answersFrom sweep rule stamp results tasks)).Kept
        (results + tasks.length) ∧
      RecordedIn recorder
        (recordAll outside recorder (answersFrom sweep rule stamp results tasks)) record
        tasks.length ∧
      ∀ derivation ∈ answersFrom sweep rule stamp results tasks,
        HasStep (recordAll outside recorder (answersFrom sweep rule stamp results tasks))
          derivation := by
  induction tasks generalizing recorder results record with
  | nil =>
    exact ⟨kept, ⟨fun _ member => member, rfl, record, isOpen, rfl, rfl, rfl⟩,
      fun _ member => absurd member List.not_mem_nil⟩
  | cons task rest ih =>
    rw [List.length_cons] at room
    obtain ⟨firstKept, first, firstStep⟩ := record_own outside kept isOpen (by omega)
      (answerOf sweep rule stamp results task) own rfl none
    obtain ⟨longer, longerOpen, length, premises, _⟩ := first.opened
    obtain ⟨restKept, later, restSteps⟩ := ih firstKept longerOpen
      (premises.trans own) (by rw [first.limit]; omega)
    refine ⟨?_, ?_, fun derivation member => ?_⟩
    · rw [List.length_cons, Nat.add_comm rest.length, ← Nat.add_assoc]
      exact restKept
    · rw [List.length_cons, Nat.add_comm rest.length]
      exact first.trans longerOpen later
    · rcases List.mem_cons.mp member with rfl | inside
      · exact firstStep.mono later.grows
      · exact restSteps derivation inside

end

/-! ### One step -/

/-- How many results an event records. -/
def resultsOf (outside : ProcessorOutside) (state : State) : Event → Nat
  | .turn caller =>
    match state.sweeps caller with
    | none => 0
    | some sweep =>
      match sweep.phase with
      | .rules (rule :: _) =>
        match (state.processor.turn outside sweep.pair rule state.results).1 with
        | .concluded _ => 1
        | _ => 0
      | _ => 0
  | .answer _ _ tasks => tasks.length
  | _ => 0

/-- The open record is the one the sweep of a caller opened. -/
def OwnsRecord (state : State) (caller : Caller) : Prop :=
  ∃ record sweep, state.processor.recorder.opened = some record ∧
    state.sweeps caller = some sweep ∧ sweep.number = some record.sweep

/-- No record comes to its limit of steps. -/
def BelowLimit (outside : ProcessorOutside) (state : State) (event : Event) : Prop :=
  ∀ record, state.processor.recorder.opened = some record →
    record.steps.length + resultsOf outside state event ≤
      state.processor.recorder.maxStepsPerRecord

/-- A sweep begins while no record with steps is open, and a result is recorded while the record
of its own sweep is. -/
def KeepsApart (outside : ProcessorOutside) (state : State) : Event → Prop
  | .begin .. => state.processor.recorder.openSteps = []
  | .turn caller => 0 < resultsOf outside state (.turn caller) → OwnsRecord state caller
  | .answer caller index tasks =>
    0 < resultsOf outside state (.answer caller index tasks) → OwnsRecord state caller
  | _ => True

/-- What every state keeps. -/
abbrev State.Provenanced (state : State) : Prop :=
  Rules.Provenanced state.processor.recorder state.results state.begun state.sweeps state.yielded

theorem Sweep.see_pair (sweep : Sweep) (derivation : Derivation) :
    (sweep.see derivation).pair = sweep.pair := by
  unfold Sweep.see
  split
  · rfl
  · split <;> rfl

theorem Sweep.see_number (sweep : Sweep) (derivation : Derivation) :
    (sweep.see derivation).number = sweep.number := by
  unfold Sweep.see
  split
  · rfl
  · split <;> rfl

variable {sweep : Sweep} {caller : Caller}

theorem Sweep.mem_held_see {derivation member} (inside : member ∈ (sweep.see derivation).held) :
    member = derivation ∨ member ∈ sweep.held := by
  have setting : member ∈ (sweep.seen.set (termKey derivation.result.term)
      derivation).entries.map Prod.snd ++ sweep.phase.held →
      member = derivation ∨ member ∈ sweep.held := by
    intro either
    rcases List.mem_append.mp either with seen | held
    · obtain ⟨entry, there, rfl⟩ := List.mem_map.mp seen
      rcases OrderedMap.mem_setEntry there with rfl | old
      · exact .inl rfl
      · exact .inr (List.mem_append_left _ (List.mem_map_of_mem old))
    · exact .inr (List.mem_append_right _ held)
  unfold Sweep.see at inside
  split at inside
  · exact setting inside
  · split at inside
    · exact setting inside
    · exact .inr inside

variable {outside : ProcessorOutside} {state next : State} {event : Event}

theorem resultsOf_turn {rule rest} (found : state.sweeps caller = some sweep)
    (phase : sweep.phase = .rules (rule :: rest)) :
    resultsOf outside state (.turn caller) =
      match (state.processor.turn outside sweep.pair rule state.results).1 with
      | .concluded _ => 1
      | _ => 0 := by
  simp only [resultsOf, found, phase]

theorem OwnsRecord.premises {caller sweep} (owns : OwnsRecord state caller)
    (kept : state.Provenanced) (found : state.sweeps caller = some sweep) :
    ∃ record, state.processor.recorder.opened = some record ∧
      record.premises = (sweep.pair.p1, sweep.pair.p2) := by
  obtain ⟨record, own, isOpen, there, number⟩ := owns
  cases there.symm.trans found
  exact ⟨record, isOpen, (kept.opener record isOpen).2 caller sweep found number⟩

theorem turnSweep_provenanced (kept : state.Provenanced) {rule rest}
    (found : state.sweeps caller = some sweep) (phase : sweep.phase = .rules (rule :: rest))
    (limit : BelowLimit outside state (.turn caller))
    (apart : KeepsApart outside state (.turn caller)) :
    (turnSweep outside state caller sweep rule rest).Provenanced := by
  have held : ∀ derivation ∈ ({ sweep with phase := .rules rest } : Sweep).held,
      HasStep state.processor.recorder derivation := by
    intro derivation member
    refine kept.held caller sweep found derivation ?_
    unfold Sweep.held at member ⊢
    rw [phase]
    exact member
  have spec : RuleProcessor.TurnSpec outside state.processor sweep.pair rule state.results
      (state.processor.turn outside sweep.pair rule state.results) := RuleProcessor.turn_spec
  unfold BelowLimit at limit
  change 0 < resultsOf outside state (.turn caller) → OwnsRecord state caller at apart
  rw [resultsOf_turn found phase] at limit apart
  unfold turnSweep
  generalize state.processor.turn outside sweep.pair rule state.results = output
    at limit apart spec ⊢
  cases spec with
  | passed quiet recorder _ =>
    rcases quiet with rfl | rfl
    · exact Provenanced.onward (recorder ▸ kept) found { sweep with phase := .rules [] } rfl rfl
        (recorder ▸ held)
    · exact Provenanced.onward (recorder ▸ kept) found { sweep with phase := .rules rest } rfl rfl
        (recorder ▸ held)
  | tooDeep _ _ _ _ recorder _ =>
    exact Provenanced.onward (recorder ▸ kept) found { sweep with phase := .rules rest } rfl rfl
      (recorder ▸ held)
  | unkept recorder _ _ =>
    exact Provenanced.onward (recorder ▸ kept) found { sweep with phase := .rules rest } rfl rfl
      (recorder ▸ held)
  | concluded result recorder _ _ =>
    obtain ⟨record, isOpen, own⟩ := (apart Nat.one_pos).premises kept found
    obtain ⟨afterKept, recorded, has⟩ := record_own outside.toOutside kept.inOrder isOpen
      (Nat.lt_of_succ_le (limit record isOpen))
      ⟨state.results, rule.id, sweep.pair.p1, sweep.pair.p2, result⟩ own rfl rule.truthFnName
    rw [← recorder] at afterKept recorded has
    have grown := recorded.provenanced kept isOpen afterKept
    have stillHeld := fun derivation member => (held derivation member).mono recorded.grows
    simp only [noteConclusion]
    split
    · refine grown.onward found _ (Sweep.see_pair _ _) (Sweep.see_number _ _)
        fun derivation member => ?_
      rcases Sweep.mem_held_see member with rfl | old
      · exact has
      · exact stillHeld derivation old
    · refine (grown.onward found { sweep with phase := .rules rest } rfl rfl stillHeld).yield
        fun derivation member => ?_
      exact List.mem_singleton.mp member ▸ has

theorem answerSweep_provenanced (kept : state.Provenanced) {answers index rule tasks}
    (found : state.sweeps caller = some sweep) (phase : sweep.phase = .models answers)
    (limit : BelowLimit outside state (.answer caller index tasks))
    (apart : KeepsApart outside state (.answer caller index tasks)) :
    (answerSweep outside state caller sweep answers index rule tasks).Provenanced := by
  have held : ∀ derivations, ∀ derivation ∈ ({ sweep with
      phase := .models (answers.set index (rule, some derivations)) } : Sweep).held,
      derivation ∈ sweep.held ∨ derivation ∈ derivations := by
    intro derivations derivation member
    unfold Sweep.held at member ⊢
    rcases List.mem_append.mp member with seen | answered
    · exact .inl (List.mem_append_left _ seen)
    · obtain ⟨answer, there, inside⟩ := List.mem_flatMap.mp answered
      rcases List.mem_or_eq_of_mem_set there with old | rfl
      · rw [phase]
        exact .inl (List.mem_append_right _ (List.mem_flatMap.mpr ⟨answer, old, inside⟩))
      · exact .inr inside
  unfold answerSweep
  generalize (if sweep.singlePremise then sweep.pair.p1.stamp
    else deriveStamp sweep.pair.p1 sweep.pair.p2 (outside.stampId state.processor.stamps)) = stamp
  cases tasks with
  | nil =>
    refine kept.onward found _ rfl rfl fun derivation member => ?_
    rcases held [] derivation member with old | none
    · exact kept.held caller sweep found derivation old
    · cases none
  | cons task rest =>
    obtain ⟨record, isOpen, own⟩ := (apart (Nat.succ_pos _)).premises kept found
    obtain ⟨afterKept, recorded, has⟩ := recordAll_own outside.toOutside rule stamp (task :: rest)
      kept.inOrder isOpen own (limit record isOpen)
    refine (recorded.provenanced kept isOpen afterKept).onward found _ rfl rfl
      fun derivation member => ?_
    rcases held _ derivation member with old | new
    · exact (kept.held caller sweep found derivation old).mono recorded.grows
    · exact has derivation new

theorem held_consulted (processor : RuleProcessor) (selected : List ModelRule) :
    (Phase.models (consulted processor selected)).held = [] := by
  show List.flatMap _ (consulted processor selected) = []
  unfold consulted
  split
  · rfl
  · simp

theorem step_provenanced (kept : state.Provenanced) (steps : Steps outside state event next)
    (limit : BelowLimit outside state event) (apart : KeepsApart outside state event) :
    next.Provenanced := by
  cases steps with
  | @begin caller p1 p2 cycle driveStates idle =>
    have begun : ∃ sweep, (beginSweep outside state caller p1 p2 cycle driveStates).sweeps =
          Function.update state.sweeps caller (some sweep) ∧
        (sweep.pair.p1, sweep.pair.p2) = (p1, p2) ∧ sweep.number = some state.begun ∧
        sweep.held = [] := ⟨_, rfl, rfl, rfl, rfl⟩
    obtain ⟨sweep, sweeps, premises, number, held⟩ := begun
    have started := kept.begin outside.toOutside caller cycle apart number held
    rw [premises, ← sweeps] at started
    exact started
  | turn found phase => exact turnSweep_provenanced kept found phase limit apart
  | answer found phase asked => exact answerSweep_provenanced kept found phase limit apart
  | @consult caller sweep selected found phase =>
    refine kept.onward found _ rfl rfl fun derivation member => ?_
    refine kept.held caller sweep found derivation ?_
    rcases List.mem_append.mp member with seen | asked
    · exact List.mem_append_left _ seen
    · exact absurd ((held_consulted _ _).subst asked) List.not_mem_nil
  | stage idle =>
    refine kept.update fun sweep same => ?_
    cases same
    refine ⟨fun _ none => absurd none (by simp), fun _ _ none => absurd none (by simp), ?_⟩
    intro derivation asked
    exact absurd ((held_consulted _ _).subst asked) List.not_mem_nil
  | @gather caller sweep answers found phase =>
    refine kept.onward found _ rfl rfl fun derivation member => ?_
    refine kept.held caller sweep found derivation ?_
    unfold Sweep.held at member ⊢
    rw [phase]
    exact member
  | @hand caller sweep derivation rest found phase =>
    have held : ∀ other ∈ derivation :: rest, HasStep state.processor.recorder other := by
      intro other member
      refine kept.held caller sweep found other (List.mem_append_right _ ?_)
      rw [phase]
      exact member
    refine (kept.onward found { sweep with phase := .handing rest } rfl rfl
      fun other member => ?_).yield fun other member => ?_
    · rcases List.mem_append.mp member with seen | later
      · exact kept.held caller sweep found other (List.mem_append_left _ seen)
      · exact held other (List.mem_cons_of_mem _ later)
    · exact held other (List.mem_singleton.mp member ▸ List.mem_cons_self)
  | @closeCall sweep found =>
    refine ((kept.drop .call).yield fun derivation member => ?_).finish outside.toOutside
    exact kept.held .call sweep found derivation (List.mem_append_left _ member)
  | closeStream found => exact (kept.drop _).finish outside.toOutside
  | closeWork found => exact kept.drop _
  | beginCycle => exact kept
  | charge => exact kept

/-! ### Every run -/

/-- Every result that was yielded has exactly one step, with its rule, premises and conclusion,
and every record that was handed on has only steps of the premises it was opened for. -/
structure State.HasProvenance (state : State) : Prop where
  recorded : ∀ derivation ∈ state.yielded, ∃ recorded,
    state.processor.recorder.steps.filter (fun other => other.result = derivation.number) =
        [recorded] ∧
      States recorded.step derivation.ruleId (derivation.p1, derivation.p2)
        derivation.result.term
  apart : ∀ record ∈ state.processor.recorder.finished, ∀ step ∈ record.record.steps,
    step.premises = premiseTexts record.premises

theorem State.Fresh.provenanced {first : State} (fresh : first.Fresh) : first.Provenanced where
  inOrder := by
    have none : first.processor.recorder.steps = [] := by
      rw [steps, openSteps, fresh.finished, fresh.opened]
      rfl
    exact {
      enabled := fresh.enabled
      numbered := by simp [none]
      nodup := by simp [none]
      opened := by simp [fresh.opened]
      finished := by simp [fresh.finished] }
  opener := by simp [fresh.opened]
  numbers := by simp [fresh.idle]
  held := by simp [fresh.idle]
  given := by simp [fresh.yielded]

theorem State.Provenanced.hasProvenance {last : State} (kept : last.Provenanced) :
    last.HasProvenance where
  recorded derivation member := by
    obtain ⟨recorded, inside, number, stated⟩ := kept.given derivation member
    exact ⟨recorded, number ▸ filter_key_eq_singleton kept.inOrder.nodup inside, stated⟩
  apart := kept.inOrder.finished

/-- In a run that records results only in the record of their own sweep, and begins no sweep
while a record with steps is open, every derivation has its provenance. -/
theorem run_provenance {first last : State} {events : List Event} (fresh : first.Fresh)
    (run : Run (step outside) first events last)
    (limit : Run.Meets (step outside) (BelowLimit outside) first events)
    (apart : Run.Meets (step outside) (KeepsApart outside) first events) : last.HasProvenance := by
  refine (Run.keeps_of_meets (fun state event next kept meets taken => ?_) run (limit.and apart)
    fresh.provenanced).hasProvenance
  exact step_provenanced kept (steps_of_step taken) meets.1 meets.2

/-! ### Runs that lose it -/

/-- What a call concludes is recorded. -/
theorem run_provenance_call :
    ∃ last, Run (step counting) (newState [constantRule "nal.given" "c"] [])
        [.begin .call (premise "a") (premise "b") 0 none, .turn .call, .close .call] last ∧
      last.HasProvenance := by
  obtain ⟨last, run⟩ : ∃ last, Run (step counting) (newState [constantRule "nal.given" "c"] [])
      [.begin .call (premise "a") (premise "b") 0 none, .turn .call, .close .call] last :=
    ⟨_, .cons rfl (.cons rfl (.cons rfl (.nil _)))⟩
  refine ⟨last, run, run_provenance (fresh_newState _ _) run ?_ ?_⟩
  · refine .cons ?_ rfl (.cons ?_ rfl (.cons ?_ rfl (.nil _)))
    · exact fun record isOpen => absurd isOpen (by simp [newState])
    · intro record isOpen
      cases isOpen
      decide +kernel
    · intro record isOpen
      cases isOpen
      decide +kernel
  · exact .cons rfl rfl (.cons (fun _ => ⟨_, _, rfl, rfl, rfl⟩) rfl (.cons trivial rfl (.nil _)))

/-- The model rule of the runs below, and the task it answers with. -/
def modelRule : ModelRule := ⟨"lm.suggest", 1⟩

def suggestion : ModelTask := ⟨.atom "c", none⟩

/-- Staged work whose model rule answers with one task. -/
def stagedWork : List Event :=
  [.stage 0 (premise "a") (some (premise "b")) [modelRule], .answer (.work 0) 0 [suggestion],
    .gather (.work 0), .hand (.work 0)]

/-- No record is open for staged work, so what it concludes has no step. -/
theorem staged_work_unrecorded :
    ¬ ∀ (outside : ProcessorOutside) (first last : State) (events : List Event), first.Fresh →
      Run (step outside) first events last →
      Run.Meets (step outside) (BelowLimit outside) first events → last.HasProvenance := by
  intro always
  have provenance := always counting (newState [] [modelRule]) _ stagedWork (fresh_newState _ _)
    (.cons rfl (.cons rfl (.cons rfl (.cons rfl (.nil _))))) (by
      refine .cons ?_ rfl (.cons ?_ rfl (.cons ?_ rfl (.cons ?_ rfl (.nil _))))
      all_goals exact fun record isOpen => absurd isOpen (by rintro ⟨⟩))
  obtain ⟨recorded, only, _⟩ := provenance.recorded _ List.mem_cons_self
  cases only

end Senars.Rules
