/-
This file is about verifying only the first steps of a record. The checks on a step look at the
steps before it and at nothing after, so the first steps of a record that is accepted have no
findings either.

The final truth of the record is compared with the last step that was looked at, which is the last
step of the record only where no step was left out.
-/

import Senars.Derivations.Verdicts

namespace Senars.Derivations

open Library Library.JsNumber

/-! ### The first steps -/

section

variable {format : NumberFormat} {options : StepOptions} {taskId : String}

theorem verifySteps_prefix {early later seen state result}
    (run : verifySteps format options taskId (early ++ later) seen state = .ok result) :
    ∃ first, verifySteps format options taskId early seen state = .ok first ∧
      first.duplicates <+: result.duplicates ∧ first.stepResults <+: result.stepResults := by
  induction early generalizing seen state result with
  | nil => exact ⟨_, rfl, List.nil_prefix, List.nil_prefix⟩
  | cons step rest ih =>
    obtain ⟨first, verified, all, others, rfl⟩ := verifySteps_cons_eq_ok.mp run
    obtain ⟨some, loop, duplicates, stepResults⟩ := ih others
    exact ⟨_, verifySteps_cons_eq_ok.mpr ⟨first, verified, some, loop, rfl⟩,
      (List.prefix_append_right_inj _).mpr duplicates, (List.prefix_cons_inj _).mpr stepResults⟩

end

/-! ### The last step that is looked at -/

/-- A step has the final truth of a record, up to a difference. -/
def endsAlike (epsilon : JsNumber) (record : DerivationRecord) (last : DerivationStep) : Bool :=
  nearlyEqual last.truth.frequency record.finalTruth.frequency epsilon &&
    nearlyEqual last.truth.confidence record.finalTruth.confidence epsilon

theorem endFindings_eq_nil_iff {epsilon record verified} :
    endFindings epsilon record verified = [] ↔
      (∀ last, verified.getLast? = some last → endsAlike epsilon record last = true) ∧
        (verified = [] → less 0 record.totalCycles = false) := by
  unfold endFindings
  cases ends : verified.getLast? with
  | none =>
    rw [List.getLast?_eq_none_iff] at ends
    simp [ends]
  | some last =>
    have some_steps : verified ≠ [] := by
      rintro rfl
      cases ends
    simp [some_steps, endsAlike]

theorem sliceTo_eq_nil {Value} {values : List Value} {stop} (atLeastOne : lessEq 1 stop = true)
    (none : sliceTo values stop = []) : values = [] := by
  cases stop with
  | nan => cases atLeastOne
  | infinite negative =>
    cases negative with
    | true => cases atLeastOne
    | false => exact none
  | finite stop =>
    have whole : 1 ≤ stop.num.tdiv stop.den := by
      rw [lessEq_iff] at atLeastOne
      have above : (1 : ℚ) ≤ stop := by simpa [less] using atLeastOne
      have nonneg : 0 ≤ stop.num := Rat.num_nonneg.mpr (zero_le_one.trans above)
      have positive : (0 : ℤ) < stop.den := Int.natCast_pos.mpr stop.den_pos
      rw [Int.tdiv_eq_ediv_of_nonneg nonneg, Int.le_ediv_iff_mul_le positive]
      simpa using (Rat.le_iff 1 stop).mp above
    simp only [sliceTo, List.take_eq_nil_iff] at none
    rcases none with short | none
    · split at short <;> omega
    · exact none

theorem toVerify_limited (options : VerifyOptions) (steps : List DerivationStep) {maxSteps}
    (atLeastOne : lessEq 1 maxSteps = true) :
    VerifyOptions.toVerify { options with maxSteps := some maxSteps } steps =
      sliceTo steps maxSteps := by
  have truthy : maxSteps.truthy = true := by
    cases maxSteps with
    | nan => cases atLeastOne
    | infinite negative => rfl
    | finite value =>
      have nonzero : value ≠ 0 := by
        rintro rfl
        simp [lessEq, less] at atLeastOne
      simp [JsNumber.truthy, nonzero]
  simp only [VerifyOptions.toVerify, truthy, if_true]

/-- A record that is accepted with no limit is accepted with a limit of one step or more exactly
where the last step that is looked at has the final truth. -/
theorem truncated_accepts_iff {schema : SchemaLibrary} {format : NumberFormat} {now : Nat}
    {record : DerivationRecord} {options : VerifyOptions} {result : VerificationResult}
    (unlimited : options.maxSteps = none)
    (run : verifyRecord schema format now record options = .ok result) (verified : result.ok = true)
    (later : Nat) {maxSteps : JsNumber} (atLeastOne : lessEq 1 maxSteps = true) :
    (∃ truncated, verifyRecord schema format later record
        { options with maxSteps := some maxSteps } = .ok truncated ∧ truncated.ok = true) ↔
      ∀ last, (sliceTo record.steps maxSteps).getLast? = some last →
        endsAlike (options.epsilon.getD defaultEpsilon) record last = true := by
  obtain ⟨rest, whole⟩ := sliceTo_prefix record.steps maxSteps
  obtain ⟨conforms, steps, loop, unique, none, ends⟩ := loop_of_verified run verified
  have all : options.toVerify record.steps = record.steps := by
    rw [VerifyOptions.toVerify, unlimited]
  rw [VerifyOptions.loop, all, ← whole] at loop
  obtain ⟨first, limited, duplicates, stepResults⟩ := verifySteps_prefix loop
  have noDuplicates : first.duplicates = [] := List.prefix_nil.mp (unique ▸ duplicates)
  have noFindings : first.stepResults.flatMap (·.findings) = [] := by
    rw [List.flatMap_eq_nil_iff] at none ⊢
    exact fun judged member => none judged (stepResults.subset member)
  have limitedLoop : VerifyOptions.loop { options with maxSteps := some maxSteps } format record =
      .ok first := by
    rw [VerifyOptions.loop, toVerify_limited options record.steps atLeastOne]
    exact limited
  have found : VerifyOptions.findings { options with maxSteps := some maxSteps } record first =
      endFindings (options.epsilon.getD defaultEpsilon) record (sliceTo record.steps maxSteps) := by
    rw [VerifyOptions.findings, toVerify_limited options record.steps atLeastOne, noDuplicates,
      noFindings]
    rfl
  -- A limit of one step or more leaves steps out, but never all of them.
  have noSteps : sliceTo record.steps maxSteps = [] → less 0 record.totalCycles = false := by
    intro empty
    rw [all] at ends
    exact (endFindings_eq_nil_iff.mp ends).2 (sliceTo_eq_nil atLeastOne empty)
  have judged : ∃ truncated, verifyRecord schema format later record
      { options with maxSteps := some maxSteps } = .ok truncated ∧
        truncated.ok = decide (VerifyOptions.findings { options with maxSteps := some maxSteps }
          record first = []) := verifyRecord_of_loop conforms limitedLoop
  obtain ⟨truncated, truncatedRun, isOk⟩ := judged
  rw [found] at isOk
  constructor
  · rintro ⟨again, againRun, accepted⟩
    rw [truncatedRun] at againRun
    cases againRun
    rw [isOk, decide_eq_true_eq] at accepted
    exact (endFindings_eq_nil_iff.mp accepted).1
  · intro alike
    refine ⟨truncated, truncatedRun, ?_⟩
    rw [isOk, decide_eq_true_eq]
    exact endFindings_eq_nil_iff.mpr ⟨alike, noSteps⟩

/-- A record of two steps, the second of them with another truth. -/
def twoTruths : DerivationRecord :=
  { oneStep [] with
    steps := (oneStep []).steps ++ (oneStep []).steps.map fun step =>
      { step with
        stepId := "33333333-3333-4333-8333-333333333333"
        truth := ⟨1, .finite (1 / 2)⟩ }
    finalTruth := ⟨1, .finite (1 / 2)⟩ }

/-- A limit of two steps leaves none of two steps out. -/
theorem truncated_accepts_iff_twoSteps :
    ∃ truncated, verifyRecord uuidSchema plainFormat 0 twoTruths { maxSteps := some 2 } =
      .ok truncated ∧ truncated.ok = true := by
  have accepted : (verifyRecord uuidSchema plainFormat 0 twoTruths {}).map (·.ok) = .ok true := by
    decide +kernel
  obtain ⟨result, run, verified⟩ := exists_result_of_ok accepted
  have last : (sliceTo twoTruths.steps 2).getLast?.all (endsAlike defaultEpsilon twoTruths) =
      true := by decide +kernel
  refine (truncated_accepts_iff rfl run verified 0 (by decide +kernel)).mpr fun step ends => ?_
  rw [ends] at last
  exact last

/-- A record that is accepted is rejected when only its first step is looked at. -/
theorem truncated_rejected :
    ¬ ∀ (schema : SchemaLibrary) (format : NumberFormat) (now : Nat) (record : DerivationRecord)
      (options : VerifyOptions) (result : VerificationResult), options.maxSteps = none →
      verifyRecord schema format now record options = .ok result → result.ok = true →
        ∀ maxSteps, lessEq 1 maxSteps = true →
          ∃ truncated, verifyRecord schema format now record
            { options with maxSteps := some maxSteps } = .ok truncated ∧ truncated.ok = true := by
  intro monotone
  have accepted : (verifyRecord uuidSchema plainFormat 0 twoTruths {}).map (·.ok) = .ok true := by
    decide +kernel
  obtain ⟨result, run, verified⟩ := exists_result_of_ok accepted
  obtain ⟨truncated, again, isOk⟩ :=
    monotone uuidSchema plainFormat 0 twoTruths {} result rfl run verified 1 (by decide +kernel)
  have rejected : (verifyRecord uuidSchema plainFormat 0 twoTruths { maxSteps := some 1 }).map
      (·.ok) = .ok false := by decide +kernel
  rw [again] at rejected
  cases rejected.symm.trans (congrArg Except.ok isOk)

end Senars.Derivations
