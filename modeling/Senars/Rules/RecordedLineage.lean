/-
This file is about what the verifier finds of the records a recorder hands on. The recorder looks
the parents of a step up by their stamps, in a map from the stamp of each conclusion to the step
that concluded it, and the verifier looks them up by the ids of the steps it has seen.

The two agree because a value of the map is always the id of a step of the same record, and the
ids of the steps are made one after the other and apart.
-/

import Senars.Derivations.Verdicts
import Senars.Library.Runs
import Senars.Rules.Recorder

namespace Senars.Rules

open Library Library.JsNumber Terms Derivations Senars.Algebra

/-! ### Runs of a recorder -/

namespace DerivationRecorder

/-- A recorder that has recorded nothing. -/
def fresh (maxStepsPerRecord : Nat) (enabled : Bool) : DerivationRecorder where
  maxStepsPerRecord
  enabled
  opened := none
  finished := []
  ids := 0
  readings := 0

end DerivationRecorder

inductive RecorderEvent where
  | begin (premises : RuleInput × RuleInput) (cycle : JsNumber) (sweep : Nat)
  | record (ruleId : String) (p1 p2 : RuleInput) (result : RuleResult)
      (truthFnName : Option String) (number : Nat)
  | finish
  | setEnabled (enabled : Bool)
  | clear

/-- One call of a recorder. Clearing drops the open record. -/
def recorderStep (outside : Outside) : Machine DerivationRecorder RecorderEvent
  | recorder, .begin premises cycle sweep => some (recorder.begin outside premises cycle sweep)
  | recorder, .record ruleId p1 p2 result truthFnName number =>
    some (recorder.record outside ruleId p1 p2 result truthFnName number)
  | recorder, .finish => some (recorder.finish outside)
  | recorder, .setEnabled enabled => some { recorder with enabled }
  | recorder, .clear => some { recorder with opened := none }

/-! ### Records that are well formed -/

/-- The ids of the steps are apart, each parent is the task or a step before, and the last step has
the final truth. -/
structure WellFormed (record : DerivationRecord) : Prop where
  unique : (record.steps.map (·.stepId)).Nodup
  lineage : ∀ (user : ℕ) (step : DerivationStep), record.steps[user]? = some step →
    ∀ parent ∈ step.evidenceLineage, parent = record.taskId ∨
      ∃ used < user, ∃ earlier : DerivationStep,
        record.steps[used]? = some earlier ∧ earlier.stepId = parent
  finalTruth : ∃ last, record.steps.getLast? = some last ∧ last.truth = record.finalTruth

/-- A truth that was written down is of rationals. -/
def Written (truth : TruthValue) : Prop := ∃ engine, truth = asBeliefTruth engine

theorem Written.endFindings {record} (written : Written record.finalTruth) {last}
    (ends : record.steps.getLast? = some last) (same : last.truth = record.finalTruth) {epsilon}
    (nonneg : lessEq 0 epsilon = true) : endFindings epsilon record record.steps = [] := by
  obtain ⟨truth, isTruth⟩ := written
  have near : ∀ value : ℚ, nearlyEqual (.finite value) (.finite value) epsilon = true := by
    intro value
    rw [nearlyEqual, finite_sub, sub_self, abs_finite]
    exact nonneg
  unfold Derivations.endFindings
  rw [ends]
  simp only [same, isTruth, asBeliefTruth, near]
  rfl

/-! ### What a recorder keeps -/

/-- The open record, of a recorder that has made so many ids. -/
structure OpenChecked (outside : Outside) (ids : Nat) (record : OpenRecord) : Prop where
  made : ∀ recorded ∈ record.steps, ∃ index < ids, recorded.step.stepId = outside.makeId index
  stamped : ∀ stamp stepId, record.stampToStep.get stamp = some stepId →
    stepId ∈ record.steps.map (·.step.stepId)
  written : ∀ recorded ∈ record.steps, Written recorded.step.truth
  checked : LineageChecked record.taskId [] (record.steps.map RecordedStep.step)

/-- A record that was handed on. -/
structure FinishedChecked (record : DerivationRecord) : Prop where
  checked : LineageChecked record.taskId [] record.steps
  written : Written record.finalTruth
  ends : ∃ last, record.steps.getLast? = some last ∧ last.truth = record.finalTruth

structure RecorderChecked (outside : Outside) (recorder : DerivationRecorder) : Prop where
  opened : ∀ record, recorder.opened = some record → OpenChecked outside recorder.ids record
  finished : ∀ finished ∈ recorder.finished, FinishedChecked finished.record

section

variable {outside : Outside} {recorder : DerivationRecorder} {record : OpenRecord}

theorem OpenChecked.lineageOf {ids} (isChecked : OpenChecked outside ids record)
    {ancestors parent} (named : parent ∈ DerivationRecorder.lineageOf record ancestors) :
    parent ∈ record.steps.map (·.step.stepId) ∨ parent = record.taskId := by
  unfold DerivationRecorder.lineageOf at named
  dsimp only at named
  split at named
  · exact .inr (List.mem_singleton.mp named)
  · obtain ⟨stamp, _, isStep⟩ := List.mem_filterMap.mp (List.mem_of_mem_take named)
    exact .inl (isChecked.stamped stamp parent isStep)

theorem OpenChecked.addStep (fresh : Function.Injective outside.makeId)
    (isChecked : OpenChecked outside recorder.ids record) (ruleId : String) (p1 p2 : RuleInput)
    (result : RuleResult) (truthFnName : Option String) (number cycles maxDepth : Nat) :
    OpenChecked outside (recorder.ids + 1) { record with
      steps := record.steps ++ [⟨DerivationRecorder.stepOf outside recorder record ruleId p1 p2
        result truthFnName, number⟩]
      stampToStep := record.stampToStep.set result.stamp.id (outside.makeId recorder.ids)
      cycles
      maxDepth } where
  made := by
    refine List.forall_mem_append.mpr ⟨fun recorded member => ?_, ?_⟩
    · obtain ⟨index, before, isMade⟩ := isChecked.made recorded member
      exact ⟨index, Nat.lt_succ_of_lt before, isMade⟩
    · exact List.forall_mem_singleton.mpr ⟨recorder.ids, Nat.lt_succ_self _, rfl⟩
  stamped stamp stepId isStep := by
    rw [List.map_append, List.mem_append]
    rw [OrderedMap.get_set] at isStep
    split at isStep
    · cases isStep
      exact .inr (List.mem_singleton.mpr rfl)
    · exact .inl (isChecked.stamped stamp stepId isStep)
  written := by
    refine List.forall_mem_append.mpr ⟨isChecked.written, ?_⟩
    exact List.forall_mem_singleton.mpr ⟨result.truth, rfl⟩
  checked := by
    rw [List.map_append, lineageChecked_append, List.append_nil]
    refine ⟨isChecked.checked, ?_, ?_, trivial⟩
    · rw [List.mem_reverse, List.map_map]
      intro again
      obtain ⟨recorded, member, same⟩ := List.mem_map.mp again
      obtain ⟨index, before, isMade⟩ := isChecked.made recorded member
      exact absurd (fresh (isMade.symm.trans same)) (Nat.ne_of_lt before)
    · intro parent named
      rw [List.mem_reverse, List.map_map]
      exact isChecked.lineageOf named

theorem RecorderChecked.step (fresh : Function.Injective outside.makeId) {event next}
    (isChecked : RecorderChecked outside recorder)
    (taken : recorderStep outside recorder event = some next) : RecorderChecked outside next := by
  cases event with
  | begin premises cycle sweep =>
    cases taken
    refine ⟨fun record isOpen => ?_, ?_⟩
    · unfold DerivationRecorder.begin at isOpen ⊢
      split at isOpen
      · next enabled =>
        cases isOpen
        exact ⟨List.forall_mem_nil _, fun _ _ isStep => absurd isStep (by simp),
          List.forall_mem_nil _, trivial⟩
      · next disabled =>
        rw [if_neg disabled]
        exact isChecked.opened record isOpen
    · rw [DerivationRecorder.begin_finished]
      exact isChecked.finished
  | record ruleId p1 p2 result truthFnName number =>
    cases taken
    refine ⟨fun record isOpen => ?_, ?_⟩
    · unfold DerivationRecorder.record at isOpen ⊢
      split at isOpen
      · next none => exact absurd (none.symm.trans isOpen) (by simp)
      · next before opened =>
        split at isOpen
        · next goes =>
          cases isOpen
          rw [if_pos goes]
          exact (isChecked.opened before opened).addStep fresh ruleId p1 p2 result truthFnName
            number _ _
        · next stays =>
          rw [if_neg stays]
          exact isChecked.opened record isOpen
    · rw [DerivationRecorder.record_finished]
      exact isChecked.finished
  | finish =>
    cases taken
    refine ⟨fun record isOpen => absurd (DerivationRecorder.finish_opened.symm.trans isOpen)
      (by simp), ?_⟩
    unfold DerivationRecorder.finish
    split
    · exact isChecked.finished
    · next record opened =>
      split
      · split
        · exact isChecked.finished
        · next last ends =>
          obtain ⟨_, _, written, checked⟩ := isChecked.opened record opened
          refine List.forall_mem_append.mpr ⟨isChecked.finished, ?_⟩
          refine List.forall_mem_singleton.mpr ⟨checked,
            written last (List.mem_of_getLast? ends), last.step, ?_, rfl⟩
          rw [List.getLast?_map, ends]
          rfl
      · exact isChecked.finished
  | setEnabled enabled =>
    cases taken
    exact ⟨isChecked.opened, isChecked.finished⟩
  | clear =>
    cases taken
    exact ⟨fun record isOpen => absurd isOpen (by simp), isChecked.finished⟩

end

/-! ### What the verifier finds -/

/-- Whatever the verifier is asked for, it finds no id twice and no unknown parent, and no other
final truth where it is to look at all steps and allows for no negative difference. It comes to a
verdict where no step names a member that every object inherits. -/
structure Verifies (record : DerivationRecord) : Prop where
  unfound : ∀ (schema : SchemaLibrary) (format : NumberFormat) (now : Nat)
    (options : VerifyOptions) (result : VerificationResult),
    verifyRecord schema format now record options = .ok result →
      ∀ finding ∈ result.findings,
        finding.check ≠ "unique-step-id" ∧ finding.check ≠ "lineage-dag" ∧
          (options.maxSteps = none → lessEq 0 (options.epsilon.getD defaultEpsilon) = true →
            finding.check ≠ "final-truth")
  verdict : ∀ (schema : SchemaLibrary) (format : NumberFormat) (now : Nat)
    (options : VerifyOptions),
    (∀ step ∈ options.toVerify record.steps,
      resolveTruthFn step.ruleId step.truthFn ≠ some .inherited) →
        ∃ result, verifyRecord schema format now record options = .ok result

section

variable {record : DerivationRecord}

theorem toVerify_isPrefix (options : VerifyOptions) (steps : List DerivationStep) :
    options.toVerify steps <+: steps := by
  unfold VerifyOptions.toVerify
  split
  · split
    · exact sliceTo_prefix _ _
    · exact List.prefix_rfl
  · exact List.prefix_rfl

theorem FinishedChecked.wellFormed (isChecked : FinishedChecked record) : WellFormed record where
  unique := by
    refine List.nodup_iff_getElem?_ne_getElem?.mpr fun first second before inside same => ?_
    rw [List.getElem?_map, List.getElem?_map] at same
    rw [List.length_map] at inside
    rw [List.getElem?_eq_getElem (before.trans inside), List.getElem?_eq_getElem inside] at same
    exact absurd (isChecked.checked.unique (List.getElem?_eq_getElem (before.trans inside))
      (List.getElem?_eq_getElem inside) (Option.some.inj same)) (Nat.ne_of_lt before)
  lineage user step userAt parent named := by
    rcases isChecked.checked.known userAt named with root | none | earlier
    · exact .inl root
    · cases none
    · exact .inr earlier
  finalTruth := isChecked.ends

theorem FinishedChecked.verifies (isChecked : FinishedChecked record) : Verifies record where
  unfound schema format now options result run finding found := by
    have apart : ∀ {check : String}, check ∉ structuralChecks → check ≠ "unique-step-id" ∧
        check ≠ "lineage-dag" ∧ check ≠ "final-truth" := by
      intro check other
      simpa [structuralChecks] using other
    obtain ⟨_, shapeless | ⟨_, steps, loop, same⟩⟩ := verifyRecord_cases run
    · rw [shapeless] at found
      rw [List.mem_singleton.mp found]
      exact ⟨by simp, by simp, fun _ _ => by simp⟩
    · obtain ⟨unique, other⟩ :=
        (isChecked.checked.of_prefix (toVerify_isPrefix options record.steps)).verifySteps loop
      rw [same, VerifyOptions.findings, unique] at found
      rcases List.mem_append.mp found with ofStep | ofEnd
      · obtain ⟨notUnique, notLineage, notFinal⟩ := apart (other finding ofStep)
        exact ⟨notUnique, notLineage, fun _ _ => notFinal⟩
      · refine ⟨?_, ?_, fun noLimit nonneg => ?_⟩
        · rcases endFindings_check ofEnd with isCheck | isCheck <;> simp [isCheck]
        · rcases endFindings_check ofEnd with isCheck | isCheck <;> simp [isCheck]
        · obtain ⟨last, ends, sameTruth⟩ := isChecked.ends
          rw [VerifyOptions.toVerify, noLimit,
            isChecked.written.endFindings ends sameTruth nonneg] at ofEnd
          cases ofEnd
  verdict schema format now options entries := by
    obtain ⟨result, run, _⟩ := verifyRecord_total schema format now record options entries
    exact ⟨result, run⟩

end

/-- Every record that is handed on, in a run of any calls, is well formed and passes the checks of
the verifier on that, where the ids that are made are apart. -/
theorem recorded_verifies {outside : Outside} (fresh : Function.Injective outside.makeId)
    {maxStepsPerRecord : Nat} {enabled : Bool} {events : List RecorderEvent}
    {recorder : DerivationRecorder}
    (run : Run (recorderStep outside) (.fresh maxStepsPerRecord enabled) events recorder) :
    ∀ finished ∈ recorder.finished, WellFormed finished.record ∧ Verifies finished.record := by
  have starts : RecorderChecked outside (.fresh maxStepsPerRecord enabled) :=
    ⟨fun record isOpen => absurd isOpen (by simp [DerivationRecorder.fresh]),
      List.forall_mem_nil _⟩
  have isChecked := run.keeps (fun _ _ _ isChecked taken => isChecked.step fresh taken) starts
  intro finished member
  exact ⟨(isChecked.finished finished member).wellFormed,
    (isChecked.finished finished member).verifies⟩

/-- Ids of more and more letters, and a clock that stands still. -/
def lettered : Outside where
  makeId index := String.ofList (List.replicate index 'i')
  clock _ := 1

theorem lettered_fresh : Function.Injective lettered.makeId := by
  intro first second same
  have letters := congrArg String.length same
  simpa [lettered] using letters

/-- A premise with a stamp, drawn from others. -/
def premiseOf (stampId : String) (derivations : List String) : RuleInput where
  term := .atom "x"
  truth := normalizeTruth 1 (.finite (9 / 10))
  stamp := ⟨stampId, derivations⟩
  occurrenceTime := 0

def conclusionOf (stampId : String) (derivations : List String) : RuleResult where
  term := .atom "y"
  truth := normalizeTruth 1 (.finite (8 / 10))
  stamp := ⟨stampId, derivations⟩
  priority := 0
  taskType := none

/-- Two rules fire, the second of them on the conclusion of the first. -/
def ruleOnConclusion : List RecorderEvent :=
  [.begin (premiseOf "a" [], premiseOf "b" []) 0 0,
    .record "nal.deduction" (premiseOf "a" []) (premiseOf "b" []) (conclusionOf "c" ["a", "b"])
      none 0,
    .record "nal.revision" (premiseOf "c" ["a", "b"]) (premiseOf "d" [])
      (conclusionOf "e" ["a", "b", "c", "d"]) none 1,
    .finish]

/-- The recorder after some calls. -/
def recorderAfter (events : List RecorderEvent) : DerivationRecorder :=
  (execute (recorderStep lettered) (.fresh 200 true) events).getD (.fresh 200 true)

theorem recorded_verifies_ruleOnConclusion :
    ∃ finished ∈ (recorderAfter ruleOnConclusion).finished,
      finished.record.steps.map (·.evidenceLineage) = [["i"], ["ii"]] ∧
        WellFormed finished.record ∧ Verifies finished.record := by
  have run : Run (recorderStep lettered) (.fresh 200 true) ruleOnConclusion
      (recorderAfter ruleOnConclusion) := run_of_execute rfl
  exact ⟨_, List.mem_cons_self, by decide +kernel,
    recorded_verifies lettered_fresh run _ List.mem_cons_self⟩

end Senars.Rules
