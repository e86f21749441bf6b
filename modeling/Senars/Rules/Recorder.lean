/-
This file is the recorder of derivations: one record is open at a time, a rule that
concludes something adds a step to it, and closing it hands the record on.

Identifiers and the time come from outside. A record keeps the premises it was
opened for and a step the number of the result it was made for, which the source
does not write down: the number stands for the result itself, so that the step of
a result can be told from the step of another with the same content.
-/

import Senars.Derivations.Record
import Senars.Library.OrderedMap
import Senars.Terms.Serialize
import Senars.Terms.Stamp

namespace Senars.Rules

open Library Terms Derivations Senars.Algebra

/-! ### Premises and results -/

inductive TaskType where
  | belief | goal | question | command
  deriving DecidableEq

structure RuleInput where
  term : Term
  truth : Truth
  stamp : Stamp
  occurrenceTime : Nat

structure RuleResult where
  term : Term
  truth : Truth
  stamp : Stamp
  priority : ℚ
  taskType : Option TaskType

def asBeliefTruth (truth : Truth) : TruthValue := ⟨.finite truth.f, .finite truth.c⟩

/-- A stamp's own identifier and those it rests on. -/
def ancestorsOf (input : RuleInput) : List String :=
  uniqueBy (fun name => name) (input.stamp.id :: input.stamp.derivations)

/-- What the recorder takes from outside. -/
structure Outside where
  makeId : Nat → String
  clock : Nat → JsNumber

/-! ### Records -/

structure RecordedStep where
  step : DerivationStep
  /-- The number of the result. -/
  result : Nat

structure OpenRecord where
  derivationId : String
  taskId : String
  steps : List RecordedStep
  stampToStep : OrderedMap String String
  maxDepth : Nat
  cycles : Nat
  cycle : JsNumber
  /-- The premises it was opened for. -/
  premises : RuleInput × RuleInput
  /-- The number of the sweep that opened it. -/
  sweep : Nat

/-- A record that was handed on. -/
structure FinishedRecord where
  record : DerivationRecord
  steps : List RecordedStep
  premises : RuleInput × RuleInput

structure DerivationRecorder where
  maxStepsPerRecord : Nat
  enabled : Bool
  opened : Option OpenRecord
  finished : List FinishedRecord
  /-- How many identifiers were made, and how often the time was read. -/
  ids : Nat
  readings : Nat

/-- The texts of two premises. -/
def premiseTexts (premises : RuleInput × RuleInput) : List String :=
  [serializeTerm premises.1.term, serializeTerm premises.2.term]

namespace DerivationRecorder

/-- Open a record for a sweep, in the place of any other. -/
def begin (outside : Outside) (recorder : DerivationRecorder) (premises : RuleInput × RuleInput)
    (cycle : JsNumber) (sweep : Nat) : DerivationRecorder :=
  if recorder.enabled then
    { recorder with
      opened := some {
        derivationId := outside.makeId recorder.ids
        taskId := outside.makeId (recorder.ids + 1)
        steps := []
        stampToStep := .empty
        maxDepth := 0
        cycles := 0
        cycle
        premises
        sweep }
      ids := recorder.ids + 2 }
  else recorder

/-- The steps a step rests on, the task where it rests on none. -/
def lineageOf (record : OpenRecord) (ancestors : List String) : List String :=
  let lineage := (ancestors.filterMap record.stampToStep.get).take 16
  if lineage.isEmpty then [record.taskId] else lineage

/-- The step of a result. -/
def stepOf (outside : Outside) (recorder : DerivationRecorder) (record : OpenRecord)
    (ruleId : String) (p1 p2 : RuleInput) (result : RuleResult) (truthFnName : Option String) :
    DerivationStep where
  stepId := outside.makeId recorder.ids
  ruleId
  premises := premiseTexts (p1, p2)
  conclusion := serializeTerm result.term
  truth := asBeliefTruth result.truth
  truthFn := truthFnName
  substitution := none
  premiseTruths := some [asBeliefTruth p1.truth, asBeliefTruth p2.truth]
  evidenceLineage := lineageOf record (ancestorsOf p1 ++ ancestorsOf p2)
  independence :=
    if (ancestorsOf p1).any fun name => decide (name ∈ ancestorsOf p2) then .dependent
    else .independent
  cycle := some record.cycle
  timestamp := some (outside.clock recorder.readings)

/-- Add the step of a result to the open record, unless there is none or it is full. -/
def record (outside : Outside) (recorder : DerivationRecorder) (ruleId : String)
    (p1 p2 : RuleInput) (result : RuleResult) (truthFnName : Option String) (number : Nat) :
    DerivationRecorder :=
  match recorder.opened with
  | none => recorder
  | some record =>
    if recorder.enabled && record.steps.length < recorder.maxStepsPerRecord then
      let step := stepOf outside recorder record ruleId p1 p2 result truthFnName
      { recorder with
        opened := some { record with
          steps := record.steps ++ [⟨step, number⟩]
          stampToStep := record.stampToStep.set result.stamp.id step.stepId
          cycles := record.cycles + 1
          maxDepth := max record.maxDepth ((ancestorsOf p1).length + (ancestorsOf p2).length) }
        ids := recorder.ids + 1
        readings := recorder.readings + 1 }
    else recorder

/-- Close the open record, and hand it on when it has a step. -/
def finish (outside : Outside) (recorder : DerivationRecorder) : DerivationRecorder :=
  let closed := { recorder with opened := none }
  match recorder.opened with
  | none => closed
  | some record =>
    if recorder.enabled then
      match record.steps.getLast? with
      | none => closed
      | some last =>
        { closed with
          finished := closed.finished ++ [{
            record := {
              derivationId := record.derivationId
              taskId := record.taskId
              steps := record.steps.map RecordedStep.step
              finalTruth := last.step.truth
              totalCycles := .finite record.cycles
              maxDepthReached := .finite record.maxDepth
              timestamp := outside.clock recorder.readings }
            steps := record.steps
            premises := record.premises }]
          readings := recorder.readings + 1 }
    else closed

/-! ### The steps of all records -/

/-- The steps of the open record. -/
def openSteps (recorder : DerivationRecorder) : List RecordedStep :=
  match recorder.opened with
  | none => []
  | some record => record.steps

/-- Every step of a record that was handed on or is open. -/
def steps (recorder : DerivationRecorder) : List RecordedStep :=
  recorder.finished.flatMap FinishedRecord.steps ++ recorder.openSteps

/-! ### What the operations do to the steps -/

section

variable {outside : Outside} {recorder : DerivationRecorder}

theorem steps_begin (premises : RuleInput × RuleInput) (cycle : JsNumber) (sweep : Nat)
    (empty : recorder.openSteps = []) :
    (recorder.begin outside premises cycle sweep).steps = recorder.steps := by
  unfold begin
  split
  · show _ ++ [] = _ ++ recorder.openSteps
    rw [empty]
  · rfl

theorem begin_opened (outside : Outside) (enabled : recorder.enabled = true)
    (premises : RuleInput × RuleInput) (cycle : JsNumber) (sweep : Nat) :
    ∃ record, (recorder.begin outside premises cycle sweep).opened = some record ∧
      record.steps = [] ∧ record.premises = premises ∧ record.sweep = sweep := by
  rw [begin, if_pos enabled]
  exact ⟨_, rfl, rfl, rfl, rfl⟩

@[simp] theorem begin_finished (premises : RuleInput × RuleInput) (cycle : JsNumber)
    (sweep : Nat) :
    (recorder.begin outside premises cycle sweep).finished = recorder.finished := by
  unfold begin
  split <;> rfl

@[simp] theorem begin_enabled (premises : RuleInput × RuleInput) (cycle : JsNumber)
    (sweep : Nat) :
    (recorder.begin outside premises cycle sweep).enabled = recorder.enabled := by
  unfold begin
  split <;> rfl

/-- A step says which rule concluded what from which premises. -/
structure States (step : DerivationStep) (ruleId : String) (premises : RuleInput × RuleInput)
    (conclusion : Term) : Prop where
  ruleId : step.ruleId = ruleId
  premises : step.premises = premiseTexts premises
  conclusion : step.conclusion = serializeTerm conclusion

theorem record_opened (outside : Outside) {record} (opened : recorder.opened = some record)
    (enabled : recorder.enabled = true) (room : record.steps.length < recorder.maxStepsPerRecord)
    (ruleId : String) (p1 p2 : RuleInput) (result : RuleResult) (truthFnName : Option String)
    (number : Nat) :
    ∃ after step,
      (recorder.record outside ruleId p1 p2 result truthFnName number).opened = some after ∧
      after.steps = record.steps ++ [⟨step, number⟩] ∧ after.premises = record.premises ∧
      after.sweep = record.sweep ∧ States step ruleId (p1, p2) result.term := by
  have goes : (recorder.enabled && decide (record.steps.length < recorder.maxStepsPerRecord)) =
      true := by
    rw [enabled, decide_eq_true room, Bool.and_true]
  simp only [DerivationRecorder.record, opened]
  rw [if_pos goes]
  exact ⟨_, _, rfl, rfl, rfl, rfl, rfl, rfl, rfl⟩

section

variable (ruleId : String) (p1 p2 : RuleInput) (result : RuleResult) (truthFnName : Option String)
  (number : Nat)

include ruleId p1 p2 result truthFnName number

@[simp] theorem record_finished :
    (recorder.record outside ruleId p1 p2 result truthFnName number).finished =
      recorder.finished := by
  unfold DerivationRecorder.record
  split
  · rfl
  · split <;> rfl

@[simp] theorem record_enabled :
    (recorder.record outside ruleId p1 p2 result truthFnName number).enabled =
      recorder.enabled := by
  unfold DerivationRecorder.record
  split
  · rfl
  · split <;> rfl

@[simp] theorem record_limit :
    (recorder.record outside ruleId p1 p2 result truthFnName number).maxStepsPerRecord =
      recorder.maxStepsPerRecord := by
  unfold DerivationRecorder.record
  split
  · rfl
  · split <;> rfl

end

@[simp] theorem finish_opened : (recorder.finish outside).opened = none := by
  unfold finish
  split
  · rfl
  · split
    · split <;> rfl
    · rfl

@[simp] theorem finish_enabled : (recorder.finish outside).enabled = recorder.enabled := by
  unfold finish
  split
  · rfl
  · split
    · split <;> rfl
    · rfl

theorem finish_finished (outside : Outside) (enabled : recorder.enabled = true) :
    (recorder.finish outside).finished = recorder.finished ∧ recorder.openSteps = [] ∨
      ∃ record finished, recorder.opened = some record ∧
        (recorder.finish outside).finished = recorder.finished ++ [finished] ∧
        finished.steps = record.steps ∧ finished.premises = record.premises ∧
        finished.record.steps = record.steps.map RecordedStep.step := by
  unfold finish openSteps
  cases opened : recorder.opened with
  | none => exact .inl ⟨rfl, rfl⟩
  | some record =>
    simp only [enabled, if_true]
    cases last : record.steps.getLast? with
    | none => exact .inl ⟨rfl, List.getLast?_eq_none_iff.mp last⟩
    | some step => exact .inr ⟨record, _, rfl, rfl, rfl, rfl, rfl⟩

theorem steps_finish (enabled : recorder.enabled = true) :
    (recorder.finish outside).steps = recorder.steps := by
  unfold steps
  rcases finish_finished outside enabled with
    ⟨same, empty⟩ | ⟨record, finished, opened, longer, itsSteps, _, _⟩
  · rw [same, empty, openSteps, finish_opened]
  · rw [longer, openSteps, finish_opened, openSteps, opened, List.flatMap_append,
      List.flatMap_singleton, itsSteps, List.append_nil]

end

/-! ### What a recorder keeps -/

/-- The steps are numbered apart and below a number, and the steps of each record are about the
premises it was opened for. -/
structure Kept (recorder : DerivationRecorder) (results : Nat) : Prop where
  enabled : recorder.enabled = true
  numbered : ∀ recorded ∈ recorder.steps, recorded.result < results
  nodup : (recorder.steps.map RecordedStep.result).Nodup
  opened : ∀ record, recorder.opened = some record → ∀ recorded ∈ record.steps,
    recorded.step.premises = premiseTexts record.premises
  finished : ∀ record ∈ recorder.finished, ∀ step ∈ record.record.steps,
    step.premises = premiseTexts record.premises

section

variable {outside : Outside} {recorder : DerivationRecorder} {results : Nat}

theorem Kept.begin (kept : recorder.Kept results) (premises : RuleInput × RuleInput)
    (cycle : JsNumber) (sweep : Nat) (empty : recorder.openSteps = []) :
    (recorder.begin outside premises cycle sweep).Kept results where
  enabled := (begin_enabled premises cycle sweep).trans kept.enabled
  numbered := by
    rw [steps_begin premises cycle sweep empty]
    exact kept.numbered
  nodup := by
    rw [steps_begin premises cycle sweep empty]
    exact kept.nodup
  opened record isOpen := by
    obtain ⟨fresh, same, none, _⟩ :=
      begin_opened outside kept.enabled premises cycle sweep
    cases same.symm.trans isOpen
    intro recorded member
    exact absurd (none ▸ member) List.not_mem_nil
  finished := by
    rw [begin_finished]
    exact kept.finished

theorem Kept.finish (kept : recorder.Kept results) : (recorder.finish outside).Kept results where
  enabled := finish_enabled.trans kept.enabled
  numbered := by
    rw [steps_finish kept.enabled]
    exact kept.numbered
  nodup := by
    rw [steps_finish kept.enabled]
    exact kept.nodup
  opened record isOpen := absurd (finish_opened.symm.trans isOpen) (Option.some_ne_none record).symm
  finished record member := by
    rcases finish_finished outside kept.enabled with
      ⟨same, _⟩ | ⟨opened, finished, isOpen, longer, _, premises, written⟩
    · exact kept.finished record (same ▸ member)
    · rw [longer] at member
      rcases List.mem_append.mp member with old | new
      · exact kept.finished record old
      · cases List.mem_singleton.mp new
        intro step inside
        rw [written] at inside
        obtain ⟨recorded, there, rfl⟩ := List.mem_map.mp inside
        exact premises ▸ kept.opened opened isOpen recorded there

theorem Kept.record (outside : Outside) (kept : recorder.Kept results) {record}
    (opened : recorder.opened = some record)
    (room : record.steps.length < recorder.maxStepsPerRecord) {p1 p2}
    (own : record.premises = (p1, p2)) (ruleId : String) (result : RuleResult)
    (truthFnName : Option String) :
    (recorder.record outside ruleId p1 p2 result truthFnName results).Kept (results + 1) ∧
      ∃ step, (recorder.record outside ruleId p1 p2 result truthFnName results).steps =
          recorder.steps ++ [⟨step, results⟩] ∧
        States step ruleId (p1, p2) result.term := by
  obtain ⟨after, step, isOpen, longer, samePremises, _, stated⟩ :=
    record_opened outside opened kept.enabled room ruleId p1 p2 result truthFnName results
  have appended : (recorder.record outside ruleId p1 p2 result truthFnName results).steps =
      recorder.steps ++ [⟨step, results⟩] := by
    rw [steps, record_finished, openSteps, isOpen, steps, openSteps, opened]
    show _ ++ after.steps = _
    rw [longer, List.append_assoc]
  refine ⟨{
    enabled := (record_enabled ..).trans kept.enabled
    numbered := ?_
    nodup := ?_
    opened := ?_
    finished := ?_ }, step, appended, stated⟩
  · rw [appended]
    intro recorded member
    rcases List.mem_append.mp member with old | new
    · exact Nat.lt_succ_of_lt (kept.numbered recorded old)
    · cases List.mem_singleton.mp new
      exact Nat.lt_succ_self results
  · rw [appended, List.map_append]
    refine List.Nodup.append kept.nodup (List.nodup_singleton _) ?_
    intro number old new
    obtain ⟨recorded, member, rfl⟩ := List.mem_map.mp old
    exact absurd (List.mem_singleton.mp new) (Nat.ne_of_lt (kept.numbered recorded member))
  · intro other otherOpen recorded member
    cases isOpen.symm.trans otherOpen
    rw [longer] at member
    rw [samePremises]
    rcases List.mem_append.mp member with old | new
    · exact kept.opened record opened recorded old
    · cases List.mem_singleton.mp new
      exact own ▸ stated.premises
  · rw [record_finished]
    exact kept.finished

end

end DerivationRecorder

end Senars.Rules
