/-
This file says for which records the verifier gives a verdict, and what the
verdict is on a step whose truth function it does not know.

Every check on a step is a case distinction on texts and numbers, except the
application of the truth function that was looked up. A name every object
inherits is found by the lookup and cannot be applied; every other name is either
in the tables, and applied to as many truths as it takes, or unknown. A step of
an unknown function is counted as skipped, and found fault with where the
verification is strict.
-/

import Senars.Derivations.Lineage

namespace Senars.Derivations

open Library Senars.Algebra

/-! ### Steps of unknown functions -/

/-- Whether neither the declared name nor the rule id of a step names a truth function. -/
def unresolved (step : DerivationStep) : Bool :=
  (resolveTruthFn step.ruleId step.truthFn).isNone

/-- The finding on a step of an unknown truth function. -/
def unknownRule (step : DerivationStep) : VerificationFinding :=
  ⟨some step.stepId, "unknown-rule", "No truth function for ruleId '" ++ step.ruleId ++ "'"⟩

/-- The verdict on a step: where its truth function is unknown nothing is computed, and the step
is found fault with where the verification is strict. -/
structure Judged (strict : Bool) (step : DerivationStep) (result : StepVerificationResult) :
    Prop where
  stepId : result.stepId = step.stepId
  verdict : result.ok = decide (result.findings = [])
  computed : unresolved step = true → result.computedTruth = none
  rejected : unresolved step = true → strict = true → unknownRule step ∈ result.findings

section Steps

variable (format : NumberFormat) (options : StepOptions) (taskId : String)

theorem applyTruthFn_ok {fn} (entry : fn ≠ .inherited) {premiseTruths}
    (count : premiseTruths.length = fn.arity) :
    ∃ computed, applyTruthFn fn premiseTruths = .ok computed := by
  cases fn with
  | inherited => exact absurd rfl entry
  | binary name =>
    match premiseTruths, count with
    | [first, second], _ => exact ⟨_, rfl⟩
  | unary name =>
    match premiseTruths, count with
    | [only], _ => exact ⟨_, rfl⟩

theorem checkTruth_ok {step} (entry : resolveTruthFn step.ruleId step.truthFn ≠ some .inherited)
    (state : ProofState) :
    ∃ check, checkTruth format options step state = .ok check ∧
      state.skipped + (if unresolved step then 1 else 0) ≤ check.state.skipped ∧
      (unresolved step = true → check.computedTruth = none ∧
        (options.strict = true → unknownRule step ∈ check.findings)) := by
  cases resolved : resolveTruthFn step.ruleId step.truthFn with
  | none =>
    have unknown : unresolved step = true := by rw [unresolved, resolved, Option.isNone_none]
    refine ⟨_, by rw [checkTruth, resolved], by rw [if_pos unknown], fun _ => ⟨rfl, ?_⟩⟩
    intro strict
    rw [if_pos strict]
    exact List.mem_singleton_self _
  | some fn =>
    have known : unresolved step = false := by rw [unresolved, resolved, Option.isNone_some]
    have different : fn ≠ .inherited := fun same => entry (same ▸ resolved)
    rw [known]
    simp only [Bool.false_eq_true, if_false, false_implies, Nat.add_zero, and_true]
    rw [checkTruth, resolved]
    simp only
    split
    · exact ⟨_, rfl, Nat.le_succ _⟩
    split
    · exact ⟨_, rfl, Nat.le_succ _⟩
    · rename_i premiseTruths _ count
      obtain ⟨computed, applied⟩ := applyTruthFn_ok different (not_not.mp count)
      simp only [applied, bind, Except.bind]
      split
      · exact ⟨_, rfl, Nat.le_refl _⟩
      · exact ⟨_, rfl, Nat.le_refl _⟩

theorem verifyStep_ok {step} (entry : resolveTruthFn step.ruleId step.truthFn ≠ some .inherited)
    (seen : List String) (state : ProofState) :
    ∃ result, verifyStep format options taskId step seen state = .ok result ∧
      Judged options.strict step result.1 ∧
      state.skipped + (if unresolved step then 1 else 0) ≤ result.2.skipped := by
  obtain ⟨check, checked, skipped, unknown⟩ := checkTruth_ok format options entry state
  simp only [verifyStep, checked, bind, Except.bind]
  refine ⟨_, rfl, ⟨rfl, ?_, fun unresolved => (unknown unresolved).1, fun unresolved strict => ?_⟩,
    skipped⟩
  · simp only [List.length_eq_zero_iff]
  · exact List.mem_append_right _ ((unknown unresolved).2 strict)

theorem verifySteps_ok {steps}
    (entries : ∀ step ∈ steps, resolveTruthFn step.ruleId step.truthFn ≠ some .inherited)
    (seen : List String) (state : ProofState) :
    ∃ result, verifySteps format options taskId steps seen state = .ok result ∧
      List.Forall₂ (Judged options.strict) steps result.stepResults ∧
      state.skipped + steps.countP unresolved ≤ result.state.skipped := by
  induction steps generalizing seen state with
  | nil => exact ⟨_, rfl, .nil, Nat.le_refl _⟩
  | cons step rest ih =>
    obtain ⟨first, verified, judged, skipped⟩ :=
      verifyStep_ok format options taskId (entries step List.mem_cons_self) seen state
    obtain ⟨later, run, others, more⟩ := ih
      (fun other member => entries other (List.mem_cons_of_mem _ member)) (step.stepId :: seen)
      first.2
    simp only [verifySteps, verified, run, bind, Except.bind]
    refine ⟨_, rfl, .cons judged others, ?_⟩
    rw [List.countP_cons, ← Nat.add_assoc, Nat.add_right_comm]
    exact (Nat.add_le_add_right skipped _).trans more

end Steps

/-! ### Records -/

/-- A record none of whose verified steps names a member every object inherits is given a
verdict. A record without the shape is rejected; of one with it, every step is judged, a step of
an unknown truth function is counted as skipped, and rejected where the verification is
strict. -/
theorem verifyRecord_total (schema : SchemaLibrary) (format : NumberFormat) (now : Nat)
    (record : DerivationRecord) (options : VerifyOptions)
    (entries : ∀ step ∈ options.toVerify record.steps,
      resolveTruthFn step.ruleId step.truthFn ≠ some .inherited) :
    ∃ result, verifyRecord schema format now record options = .ok result ∧
      (record.conforms schema.isUuid = false → result.ok = false ∧
        result.findings = [⟨none, "record-shape", formatIssues (schema.issues record) "; "⟩]) ∧
      (record.conforms schema.isUuid = true →
        List.Forall₂ (Judged (options.strict.getD false)) (options.toVerify record.steps)
          result.stepResults ∧
        (options.toVerify record.steps).countP unresolved ≤ result.truthSkipped ∧
        ∀ step ∈ options.toVerify record.steps, unresolved step = true →
          options.strict = some true → result.ok = false ∧
            unknownRule step ∈ result.findings) := by
  cases shape : record.conforms schema.isUuid with
  | false =>
    simp only [verifyRecord, shape]
    refine ⟨_, rfl, fun _ => ⟨rfl, rfl⟩, fun conforms => absurd conforms (by simp)⟩
  | true =>
    obtain ⟨steps, run, judged, skipped⟩ := verifySteps_ok format
      ⟨options.epsilon.getD defaultEpsilon, options.strict.getD false⟩ record.taskId entries []
      ⟨0, 0⟩
    simp only [verifyRecord, shape, run, bind, Except.bind]
    refine ⟨_, rfl, fun wrong => absurd wrong (by simp), fun _ => ⟨judged, ?_, ?_⟩⟩
    · exact (Nat.zero_add _).symm.le.trans skipped
    · intro step member unknown strict
      obtain ⟨result, inside, verdict⟩ := exists_right_of_forall₂ judged member
      have found : unknownRule step ∈ result.findings :=
        verdict.rejected unknown (by rw [strict]; rfl)
      have among : unknownRule step ∈ steps.duplicates ++ steps.stepResults.flatMap (·.findings) ++
          endFindings (options.epsilon.getD defaultEpsilon) record
            (options.toVerify record.steps) :=
        List.mem_append_left _
          (List.mem_append_right _ (List.mem_flatMap.mpr ⟨result, inside, found⟩))
      exact ⟨decide_eq_false fun none => absurd among (by simp [List.length_eq_zero_iff.mp none]),
        among⟩

/-- A record of one step with two premise truths that names a truth function. -/
def stepNaming (truthFn : String) : DerivationRecord :=
  { oneStep [] with
    steps := (oneStep []).steps.map fun step =>
      { step with
        truthFn := some truthFn
        premiseTruths := some [⟨1, .finite (9 / 10)⟩, ⟨1, .finite (9 / 10)⟩] } }

/-- A step of an unknown truth function fails a strict verification. -/
theorem verifyRecord_total_strict :
    ∃ result, verifyRecord uuidSchema plainFormat 0 (stepNaming "telepathy")
      { strict := some true } = .ok result ∧ result.ok = false := by
  have entries : ∀ step ∈ VerifyOptions.toVerify { strict := some true }
      (stepNaming "telepathy").steps,
        resolveTruthFn step.ruleId step.truthFn ≠ some .inherited := by
    decide +kernel
  obtain ⟨result, run, _, judged⟩ := verifyRecord_total uuidSchema plainFormat 0
    (stepNaming "telepathy") { strict := some true } entries
  refine ⟨result, run, ?_⟩
  have shape : (stepNaming "telepathy").conforms uuidSchema.isUuid = true := by decide +kernel
  have unknown : ∀ step ∈ (stepNaming "telepathy").steps, unresolved step = true := by
    decide +kernel
  obtain ⟨step, member⟩ : ∃ step, step ∈ (stepNaming "telepathy").steps := ⟨_, List.mem_cons_self⟩
  exact ((judged shape).2.2 step member (unknown step member) rfl).1

/-- A step that names a member every object inherits ends the verification in an error, and a
step of an unknown truth function is accepted where the verification is not strict. -/
theorem undeclared_names_not_rejected :
    (¬ ∀ (schema : SchemaLibrary) (format : NumberFormat) (now : Nat) (record : DerivationRecord)
      (options : VerifyOptions),
      ∃ result, verifyRecord schema format now record options = .ok result) ∧
    (¬ ∀ (schema : SchemaLibrary) (format : NumberFormat) (now : Nat) (record : DerivationRecord)
      (options : VerifyOptions) (result : VerificationResult),
      verifyRecord schema format now record options = .ok result →
        ∀ step ∈ record.steps, ∀ name, step.truthFn = some name →
          declaredTruthFn (some name) = none → result.ok = false) := by
  constructor
  · intro total
    obtain ⟨result, run⟩ := total uuidSchema plainFormat 0 (stepNaming "constructor") {}
    have thrown : (verifyRecord uuidSchema plainFormat 0 (stepNaming "constructor") {}).map (·.ok) =
        .error "TypeError" := by decide +kernel
    rw [run] at thrown
    cases thrown
  · intro rejected
    have accepted : (verifyRecord uuidSchema plainFormat 0 (stepNaming "telepathy") {}).map (·.ok) =
        .ok true := by decide +kernel
    obtain ⟨result, run, verified⟩ := exists_result_of_ok accepted
    have refused := rejected _ _ _ _ _ result run _ List.mem_cons_self "telepathy" rfl
      (by decide +kernel)
    rw [verified] at refused
    cases refused

end Senars.Derivations
