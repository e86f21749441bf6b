/-
This file says what a verified record's lineage is worth.

A step may name as a parent any step before it, or the task. Steps named that way
only go back, so their evidence is well founded. The task is the exception: its id
is a plain identifier that a step may carry as its own, and then a parent named by
it is that step, wherever it stands. The evidence of a verified record goes round
exactly where a step carries the task's id and rests on the task itself.
-/

import Senars.Derivations.Record
import Senars.Library.Acyclic
import Senars.Library.Fuel

namespace Senars.Derivations

open Library Relation

/-! ### Evidence -/

/-- The first step uses the conclusion of the second as evidence. -/
def Uses (steps : List DerivationStep) (user used : Nat) : Prop :=
  ∃ step, steps[user]? = some step ∧
    ∃ parent, steps[used]? = some parent ∧ parent.stepId ∈ step.evidenceLineage

/-- A step whose lineage names the task or a step that rests on it rests on the task. -/
def restingStep (taskId : String) (resting : List String) (step : DerivationStep) : List String :=
  if step.evidenceLineage.any fun parent => parent = taskId || parent ∈ resting then
    step.stepId :: resting
  else resting

/-- The ids of the steps that rest on the task, found in one pass over the steps. -/
def restingOnTask (taskId : String) (steps : List DerivationStep) : List String :=
  steps.foldl (restingStep taskId) []

/-! ### What the checks say -/

/-- Every step has an id of its own and names as parents only steps before it and the task. -/
def LineageChecked (taskId : String) : List String → List DerivationStep → Prop
  | _, [] => True
  | seen, step :: rest =>
    step.stepId ∉ seen ∧ (∀ parent ∈ step.evidenceLineage, parent ∈ seen ∨ parent = taskId) ∧
      LineageChecked taskId (step.stepId :: seen) rest

section Checks

variable {format : NumberFormat} {options : StepOptions} {taskId : String}

theorem parentFindings_eq_nil {priorStepIds step parent}
    (none : parentFindings taskId priorStepIds step parent = []) :
    parent ∈ priorStepIds ∨ parent = taskId := by
  unfold parentFindings at none
  split at none
  · exact absurd none (List.cons_ne_nil _ _)
  · rename_i known
    by_contra unknown
    exact known (not_or.mp unknown)

variable {state : ProofState} {seen : List String} {finding : VerificationFinding}
  {result : StepVerificationResult × ProofState}

theorem verifyStep_eq_ok {step}
    (run : verifyStep format options taskId step seen state = .ok result) :
    ∃ truth, checkTruth format options step state = .ok truth ∧
      result.1.findings = shapeFindings step ++
        (step.substitution.getD []).flatMap (bindingFindings step) ++
        step.evidenceLineage.flatMap (parentFindings taskId seen step) ++
        independenceFindings step ++ truth.findings := by
  obtain ⟨truth, checked, judged⟩ := bind_eq_ok.mp run
  cases judged
  exact ⟨truth, checked, rfl⟩

theorem verifySteps_cons_eq_ok {step rest result} :
    verifySteps format options taskId (step :: rest) seen state = .ok result ↔
      ∃ first, verifyStep format options taskId step seen state = .ok first ∧
        ∃ later, verifySteps format options taskId rest (step.stepId :: seen) first.2 = .ok later ∧
          result = ⟨(if step.stepId ∈ seen then
              [⟨some step.stepId, "unique-step-id", "Duplicate stepId " ++ step.stepId⟩] else []) ++
            later.duplicates, first.1 :: later.stepResults, later.state⟩ := by
  refine bind_eq_ok.trans (exists_congr fun first => and_congr_right fun _ => ?_)
  refine bind_eq_ok.trans (exists_congr fun later => and_congr_right fun _ => ?_)
  exact ⟨fun same => (Except.ok.inj same).symm, fun same => congrArg Except.ok same.symm⟩

theorem verifyStep_parents {step}
    (run : verifyStep format options taskId step seen state = .ok result)
    (none : result.1.findings = []) :
    ∀ parent ∈ step.evidenceLineage, parent ∈ seen ∨ parent = taskId := by
  intro parent member
  obtain ⟨_, _, found⟩ := verifyStep_eq_ok run
  simp only [found, List.append_eq_nil_iff, List.flatMap_eq_nil_iff] at none
  exact parentFindings_eq_nil (none.1.1.2 parent member)

theorem verifySteps_checked {steps result}
    (run : verifySteps format options taskId steps seen state = .ok result)
    (unique : result.duplicates = []) (none : result.stepResults.flatMap (·.findings) = []) :
    LineageChecked taskId seen steps := by
  induction steps generalizing seen state result with
  | nil => trivial
  | cons step rest ih =>
    obtain ⟨first, verified, others, later, rfl⟩ := verifySteps_cons_eq_ok.mp run
    simp only [List.append_eq_nil_iff, List.flatMap_cons] at unique none
    refine ⟨fun old => ?_, verifyStep_parents verified none.1,
      ih later unique.2 none.2⟩
    rw [if_pos old] at unique
    exact absurd unique.1 (List.cons_ne_nil _ _)

/-- The checks on how the steps of a record hang together. -/
def structuralChecks : List String := ["unique-step-id", "lineage-dag", "final-truth"]

theorem shapeFindings_check {step : DerivationStep} (found : finding ∈ shapeFindings step) :
    finding.check ∉ structuralChecks := by
  unfold shapeFindings at found
  simp only [List.mem_append, List.mem_ite_nil_right, List.mem_singleton] at found
  rcases found with ((⟨_, rfl⟩ | ⟨_, rfl⟩) | ⟨_, rfl⟩) | ⟨_, rfl⟩
  · exact (by decide : "rule-shape" ∉ structuralChecks)
  · exact (by decide : "premise-shape" ∉ structuralChecks)
  · exact (by decide : "premise-shape" ∉ structuralChecks)
  · exact (by decide : "conclusion-shape" ∉ structuralChecks)

theorem bindingFindings_check {step binding} (found : finding ∈ bindingFindings step binding) :
    finding.check ∉ structuralChecks := by
  unfold bindingFindings at found
  split_ifs at found
  · rw [List.mem_singleton.mp found]
    exact (by decide : "substitution-value" ∉ structuralChecks)
  · rw [List.mem_singleton.mp found]
    exact (by decide : "substitution-premise" ∉ structuralChecks)
  · rw [List.mem_singleton.mp found]
    exact (by decide : "substitution-conclusion" ∉ structuralChecks)
  · cases found

theorem independenceFindings_check {step} (found : finding ∈ independenceFindings step) :
    finding.check ∉ structuralChecks := by
  unfold independenceFindings at found
  split at found
  · rw [List.mem_singleton.mp found]
    exact (by decide : "evidence-independence" ∉ structuralChecks)
  · cases found

theorem checkTruth_check {step} {checked : TruthCheck}
    (run : checkTruth format options step state = .ok checked) :
    ∀ finding ∈ checked.findings, finding.check ∉ structuralChecks := by
  unfold checkTruth at run
  split at run
  · cases run
    split
    · exact List.forall_mem_singleton.mpr (by decide : "unknown-rule" ∉ structuralChecks)
    · exact List.forall_mem_nil _
  split at run
  · cases run
    exact List.forall_mem_nil _
  split at run
  · cases run
    exact List.forall_mem_nil _
  obtain ⟨computed, _, judged⟩ := bind_eq_ok.mp run
  split at judged
  · cases judged
    exact List.forall_mem_nil _
  · cases judged
    exact List.forall_mem_singleton.mpr (by decide : "truth-algebra" ∉ structuralChecks)

theorem endFindings_check {epsilon record verified}
    (found : finding ∈ endFindings epsilon record verified) :
    finding.check = "final-truth" ∨ finding.check = "empty-derivation" := by
  unfold endFindings at found
  split at found
  · split at found
    · exact .inl (congrArg _ (List.mem_singleton.mp found))
    · cases found
  · split at found
    · exact .inr (congrArg _ (List.mem_singleton.mp found))
    · cases found

theorem verifyStep_check {step}
    (run : verifyStep format options taskId step seen state = .ok result)
    (known : ∀ parent ∈ step.evidenceLineage, parent ∈ seen ∨ parent = taskId) :
    ∀ finding ∈ result.1.findings, finding.check ∉ structuralChecks := by
  obtain ⟨_, truth, all⟩ := verifyStep_eq_ok run
  intro finding found
  simp only [all, List.mem_append, List.mem_flatMap] at found
  rcases found with
    (((shape | ⟨_, _, binding⟩) | ⟨parent, named, unknown⟩) | independence) | found
  · exact shapeFindings_check shape
  · exact bindingFindings_check binding
  · unfold parentFindings at unknown
    rw [if_neg fun both => (known parent named).elim both.1 both.2] at unknown
    cases unknown
  · exact independenceFindings_check independence
  · exact checkTruth_check truth finding found

theorem LineageChecked.verifySteps {steps seen state result}
    (checked : LineageChecked taskId seen steps)
    (run : verifySteps format options taskId steps seen state = .ok result) :
    result.duplicates = [] ∧
      ∀ finding ∈ result.stepResults.flatMap (·.findings), finding.check ∉ structuralChecks := by
  induction steps generalizing seen state result with
  | nil =>
    cases run
    exact ⟨rfl, List.forall_mem_nil _⟩
  | cons step rest ih =>
    obtain ⟨first, verified, others, later, rfl⟩ := verifySteps_cons_eq_ok.mp run
    obtain ⟨isNew, known, checkedLater⟩ := checked
    obtain ⟨unique, none⟩ := ih checkedLater later
    refine ⟨?_, ?_⟩
    · rw [if_neg isNew, unique]
      rfl
    · rw [List.flatMap_cons]
      exact List.forall_mem_append.mpr ⟨verifyStep_check verified known, none⟩

end Checks

section Records

variable {schema : SchemaLibrary} {format : NumberFormat} {now : Nat} {record : DerivationRecord}
  {options : VerifyOptions}

/-- The loop over the steps a verification looks at. -/
def VerifyOptions.loop (options : VerifyOptions) (format : NumberFormat)
    (record : DerivationRecord) : Except String StepsVerified :=
  verifySteps format ⟨options.epsilon.getD defaultEpsilon, options.strict.getD false⟩ record.taskId
    (options.toVerify record.steps) [] ⟨0, 0⟩

/-- What a verification finds, when the loop over the steps has come to something. -/
def VerifyOptions.findings (options : VerifyOptions) (record : DerivationRecord)
    (steps : StepsVerified) : List VerificationFinding :=
  steps.duplicates ++ steps.stepResults.flatMap (·.findings) ++
    endFindings (options.epsilon.getD defaultEpsilon) record (options.toVerify record.steps)

variable {result : VerificationResult}

theorem verifyRecord_cases (run : verifyRecord schema format now record options = .ok result) :
    result.ok = decide (result.findings = []) ∧
      (result.findings = [⟨none, "record-shape", formatIssues (schema.issues record) "; "⟩] ∨
        record.conforms schema.isUuid = true ∧ ∃ steps, options.loop format record = .ok steps ∧
          result.findings = options.findings record steps) := by
  unfold verifyRecord at run
  split at run
  · cases run
    exact ⟨rfl, .inl rfl⟩
  · next conforms =>
    obtain ⟨steps, loop, judged⟩ := bind_eq_ok.mp run
    cases judged
    refine ⟨?_, .inr ⟨by simpa using conforms, steps, loop, rfl⟩⟩
    rw [decide_eq_decide]
    exact List.length_eq_zero_iff

theorem verifyRecord_of_loop (conforms : record.conforms schema.isUuid = true) {steps}
    (loop : options.loop format record = .ok steps) :
    ∃ result, verifyRecord schema format now record options = .ok result ∧
      result.ok = decide (options.findings record steps = []) := by
  rw [VerifyOptions.loop] at loop
  unfold verifyRecord
  simp only [conforms, loop, bind, Except.bind, Bool.not_true, Bool.false_eq_true, if_false]
  refine ⟨_, rfl, ?_⟩
  rw [decide_eq_decide]
  exact List.length_eq_zero_iff

theorem loop_of_verified (run : verifyRecord schema format now record options = .ok result)
    (verified : result.ok = true) :
    record.conforms schema.isUuid = true ∧ ∃ steps, options.loop format record = .ok steps ∧
      steps.duplicates = [] ∧ steps.stepResults.flatMap (·.findings) = [] ∧
        endFindings (options.epsilon.getD defaultEpsilon) record (options.toVerify record.steps) =
          [] := by
  obtain ⟨isOk, shapeless | ⟨conforms, steps, loop, found⟩⟩ := verifyRecord_cases run
  · rw [isOk, shapeless] at verified
    exact absurd verified (by simp)
  · rw [isOk, decide_eq_true_eq, found, VerifyOptions.findings, List.append_eq_nil_iff,
      List.append_eq_nil_iff] at verified
    exact ⟨conforms, steps, loop, verified.1.1, verified.1.2, verified.2⟩

theorem verifyRecord_checked (run : verifyRecord schema format now record options = .ok result)
    (verified : result.ok = true) :
    LineageChecked record.taskId [] (options.toVerify record.steps) := by
  obtain ⟨_, steps, loop, unique, none, _⟩ := loop_of_verified run verified
  exact verifySteps_checked loop unique none

end Records

/-! ### The lineage of a checked record -/

section Lineage

variable {taskId : String} {seen : List String} {steps : List DerivationStep}

theorem LineageChecked.fresh (checked : LineageChecked taskId seen steps) :
    ∀ step ∈ steps, step.stepId ∉ seen := by
  induction steps generalizing seen with
  | nil => simp
  | cons head rest ih =>
    intro step member
    rcases List.mem_cons.mp member with rfl | later
    · exact checked.1
    · exact fun old => ih checked.2.2 step later (List.mem_cons_of_mem _ old)

theorem lineageChecked_append {later} :
    LineageChecked taskId seen (steps ++ later) ↔ LineageChecked taskId seen steps ∧
      LineageChecked taskId ((steps.map (·.stepId)).reverse ++ seen) later := by
  induction steps generalizing seen with
  | nil => exact ⟨fun checked => ⟨trivial, checked⟩, And.right⟩
  | cons head rest ih =>
    rw [List.cons_append, LineageChecked, LineageChecked, ih, List.map_cons,
      List.reverse_cons, List.append_assoc, List.singleton_append, and_assoc, and_assoc]

theorem LineageChecked.of_prefix {early} (checked : LineageChecked taskId seen steps)
    (begins : early <+: steps) : LineageChecked taskId seen early := by
  obtain ⟨later, rfl⟩ := begins
  exact (lineageChecked_append.mp checked).1

theorem LineageChecked.unique (checked : LineageChecked taskId seen steps) {first second : Nat}
    {step other} (firstAt : steps[first]? = some step) (secondAt : steps[second]? = some other)
    (same : step.stepId = other.stepId) : first = second := by
  induction steps generalizing seen first second with
  | nil => exact absurd firstAt (by simp)
  | cons head rest ih =>
    have later : ∀ {index : Nat} {step : DerivationStep}, rest[index]? = some step →
        step.stepId ≠ head.stepId := by
      intro index step at' same
      exact checked.2.2.fresh step (List.mem_of_getElem? at') (same ▸ List.mem_cons_self)
    cases first with
    | zero =>
      cases second with
      | zero => rfl
      | succ second =>
        cases (Option.some.inj firstAt)
        exact absurd same.symm (later secondAt)
    | succ first =>
      cases second with
      | zero =>
        cases (Option.some.inj secondAt)
        exact absurd same (later firstAt)
      | succ second => exact congrArg Nat.succ (ih checked.2.2 firstAt secondAt)

theorem LineageChecked.known (checked : LineageChecked taskId seen steps) {user : Nat} {step}
    (userAt : steps[user]? = some step) {parent} (named : parent ∈ step.evidenceLineage) :
    parent = taskId ∨ parent ∈ seen ∨
      ∃ used < user, ∃ earlier, steps[used]? = some earlier ∧ earlier.stepId = parent := by
  induction steps generalizing seen user with
  | nil => exact absurd userAt (by simp)
  | cons head rest ih =>
    cases user with
    | zero =>
      cases (Option.some.inj userAt)
      rcases checked.2.1 parent named with old | root
      · exact Or.inr (Or.inl old)
      · exact Or.inl root
    | succ user =>
      rcases ih checked.2.2 userAt with
        root | old | ⟨used, before, earlier, at', same⟩
      · exact Or.inl root
      · rcases List.mem_cons.mp old with here | older
        · exact Or.inr (Or.inr ⟨0, Nat.succ_pos user, head, rfl, here.symm⟩)
        · exact Or.inr (Or.inl older)
      · exact Or.inr (Or.inr ⟨used + 1, Nat.succ_lt_succ before, earlier, at', same⟩)

variable (checked : LineageChecked taskId [] steps)

include checked

theorem LineageChecked.uses {user used} (uses : Uses steps user used) :
    used < user ∨ ∃ step, steps[used]? = some step ∧ step.stepId = taskId := by
  obtain ⟨step, userAt, parent, usedAt, named⟩ := uses
  rcases checked.known userAt named with root | none | ⟨earlier, before, other, at', same⟩
  · exact Or.inr ⟨parent, usedAt, root⟩
  · cases none
  · exact Or.inl (checked.unique at' usedAt same ▸ before)

end Lineage

/-! ### Resting on the task -/

/-- A step rests on the task where what it uses, through any number of steps, names the task. -/
def RestsOnTask (taskId : String) (steps : List DerivationStep) (user : Nat) : Prop :=
  ∃ last, ReflTransGen (Uses steps) user last ∧
    ∃ step, steps[last]? = some step ∧ taskId ∈ step.evidenceLineage

section Resting

variable {taskId : String} {steps : List DerivationStep}
  (checked : LineageChecked taskId [] steps)

include checked

theorem restsOnTask_iff {user step} (userAt : steps[user]? = some step) :
    RestsOnTask taskId steps user ↔ ∃ parent ∈ step.evidenceLineage, parent = taskId ∨
      ∃ used < user, ∃ earlier, steps[used]? = some earlier ∧ earlier.stepId = parent ∧
        RestsOnTask taskId steps used := by
  constructor
  · rintro ⟨last, path, lastStep, lastAt, named⟩
    rcases ReflTransGen.cases_head path with rfl | ⟨used, uses, after⟩
    · cases userAt.symm.trans lastAt
      exact ⟨taskId, named, Or.inl rfl⟩
    · have toward := checked.uses uses
      obtain ⟨user', userAt', parent, usedAt, parentNamed⟩ := uses
      cases userAt.symm.trans userAt'
      refine ⟨parent.stepId, parentNamed, ?_⟩
      rcases toward with before | ⟨root, rootAt, isRoot⟩
      · exact Or.inr ⟨used, before, parent, usedAt, rfl, last, after, lastStep, lastAt, named⟩
      · cases usedAt.symm.trans rootAt
        exact Or.inl isRoot
  · rintro ⟨parent, named, rfl | ⟨used, _, earlier, usedAt, rfl, last, path, found⟩⟩
    · exact ⟨user, .refl, step, userAt, named⟩
    · exact ⟨last, .head ⟨step, userAt, earlier, usedAt, named⟩ path, found⟩

theorem mem_restingOnTask_take (count : Nat) (stepId : String) :
    stepId ∈ restingOnTask taskId (steps.take count) ↔
      ∃ user < count, ∃ step, steps[user]? = some step ∧ step.stepId = stepId ∧
        RestsOnTask taskId steps user := by
  induction count generalizing stepId with
  | zero => simp [restingOnTask]
  | succ count ih =>
    cases at' : steps[count]? with
    | none =>
      have same : steps.take (count + 1) = steps.take count := by
        rw [List.take_add_one, at', Option.toList_none, List.append_nil]
      rw [same, ih]
      constructor
      · rintro ⟨user, before, found⟩
        exact ⟨user, before.trans (Nat.lt_succ_self count), found⟩
      · rintro ⟨user, before, step, userAt, found⟩
        have other : user ≠ count := by
          rintro rfl
          rw [at'] at userAt
          exact absurd userAt (by simp)
        exact ⟨user, by omega, step, userAt, found⟩
    | some step =>
      have rests : (step.evidenceLineage.any fun parent =>
          parent = taskId || parent ∈ restingOnTask taskId (steps.take count)) = true ↔
          RestsOnTask taskId steps count := by
        rw [restsOnTask_iff checked at', List.any_eq_true]
        simp only [Bool.or_eq_true, decide_eq_true_eq, ih]
      rw [restingOnTask, List.take_add_one, at', Option.toList_some, List.foldl_concat,
        ← restingOnTask, restingStep]
      constructor
      · intro member
        have old : stepId ∈ restingOnTask taskId (steps.take count) → ∃ user < count + 1,
            ∃ step, steps[user]? = some step ∧ step.stepId = stepId ∧
              RestsOnTask taskId steps user := by
          intro before
          obtain ⟨user, earlier, found⟩ := (ih stepId).mp before
          exact ⟨user, earlier.trans (Nat.lt_succ_self count), found⟩
        split at member
        · rename_i found
          rcases List.mem_cons.mp member with rfl | before
          · exact ⟨count, Nat.lt_succ_self count, step, at', rfl, rests.mp found⟩
          · exact old before
        · exact old member
      · rintro ⟨user, before, found, userAt, rfl, resting⟩
        rcases Nat.lt_succ_iff_lt_or_eq.mp before with earlier | rfl
        · have member := (ih found.stepId).mpr
            ⟨user, earlier, found, userAt, rfl, resting⟩
          split
          · exact List.mem_cons_of_mem _ member
          · exact member
        · cases at'.symm.trans userAt
          rw [if_pos (rests.mpr resting)]
          exact List.mem_cons_self

theorem mem_restingOnTask (stepId : String) :
    stepId ∈ restingOnTask taskId steps ↔
      ∃ user step, steps[user]? = some step ∧ step.stepId = stepId ∧
        RestsOnTask taskId steps user := by
  have whole := mem_restingOnTask_take checked steps.length stepId
  rw [List.take_length] at whole
  rw [whole]
  constructor
  · rintro ⟨user, _, found⟩
    exact ⟨user, found⟩
  · rintro ⟨user, step, userAt, found⟩
    exact ⟨user, (List.getElem?_eq_some_iff.mp userAt).1, step, userAt, found⟩

theorem LineageChecked.acyclic_iff :
    Acyclic (Uses steps) ↔ taskId ∉ restingOnTask taskId steps := by
  have toward : ∀ user used, Uses steps user used → id used < id user ∨
      ∃ step, steps[used]? = some step ∧ step.stepId = taskId :=
    fun _ _ uses => checked.uses uses
  have descending := acyclic_iff_of_descending toward
  rw [descending, mem_restingOnTask checked]
  constructor
  · rintro none ⟨user, step, userAt, isRoot, last, path, lastStep, lastAt, named⟩
    refine none user ⟨step, userAt, isRoot⟩ (TransGen.tail' path ?_)
    exact ⟨lastStep, lastAt, step, userAt, isRoot ▸ named⟩
  · rintro none node ⟨step, nodeAt, isRoot⟩ cycle
    obtain ⟨last, path, lastStep, lastAt, parent, parentAt, named⟩ := TransGen.tail'_iff.mp cycle
    cases nodeAt.symm.trans parentAt
    exact none ⟨node, step, nodeAt, isRoot, last, path, lastStep, lastAt, isRoot ▸ named⟩

end Resting

/-! ### Verified records -/

/-- Where a record is verified, no step is among its own evidence if and only if the task's id
is not the id of a step that rests on the task. The steps are those the options ask for, all of
them where the options bound nothing. -/
theorem verified_acyclic_iff (schema : SchemaLibrary) (format : NumberFormat) (now : Nat)
    (record : DerivationRecord) (options : VerifyOptions) (result : VerificationResult)
    (run : verifyRecord schema format now record options = .ok result)
    (verified : result.ok = true) :
    (Acyclic (Uses (options.toVerify record.steps)) ↔
      record.taskId ∉ restingOnTask record.taskId (options.toVerify record.steps)) ∧
    (options.maxSteps = none → options.toVerify record.steps = record.steps) := by
  refine ⟨(verifyRecord_checked run verified).acyclic_iff, fun unbounded => ?_⟩
  rw [VerifyOptions.toVerify, unbounded]

/-! ### A step that is its own parent -/

/-- The texts of a version 4 identifier, as far as the record below needs them. -/
def isUuidText (text : String) : Bool :=
  let chars := text.toList
  let isHex char := char.isDigit || "abcdefABCDEF".toList.contains char
  chars.length = 36 && [8, 13, 18, 23].all (fun index => chars[index]? = some '-') &&
    chars[14]? = some '4' && (chars[19]?.all "89abAB".toList.contains) &&
    (chars.filter (· ≠ '-')).all isHex && (chars.filter (· ≠ '-')).length = 32

/-- A schema library and a number format for the records below. -/
def uuidSchema : SchemaLibrary := ⟨isUuidText, fun _ => []⟩

def plainFormat : NumberFormat := ⟨fun _ => "", fun _ _ => ""⟩

/-- A record of one step with the given parents. The step's id is the record's task id. -/
def oneStep (evidenceLineage : List String) : DerivationRecord where
  derivationId := "22222222-2222-4222-8222-222222222222"
  taskId := "11111111-1111-4111-8111-111111111111"
  steps := [{
    stepId := "11111111-1111-4111-8111-111111111111"
    ruleId := "nal.modusPonens"
    premises := ["<bird --> animal>"]
    conclusion := "<robin --> animal>"
    truth := ⟨1, .finite (9 / 10)⟩
    truthFn := none
    substitution := none
    premiseTruths := none
    evidenceLineage
    independence := .independent
    cycle := none
    timestamp := none }]
  finalTruth := ⟨1, .finite (9 / 10)⟩
  totalCycles := 1
  maxDepthReached := 1
  timestamp := 1

/-- The record whose only step names itself, through the task's id. -/
def selfSupporting : DerivationRecord := oneStep ["11111111-1111-4111-8111-111111111111"]

theorem exists_result_of_ok {run : Except String VerificationResult}
    (verified : run.map (·.ok) = .ok true) : ∃ result, run = .ok result ∧ result.ok = true := by
  cases run with
  | error message => exact absurd verified (by rintro ⟨⟩)
  | ok result => exact ⟨result, rfl, Except.ok.inj verified⟩

/-- A step without parents may carry the task's id. -/
theorem verified_acyclic_iff_oneStep : Acyclic (Uses (oneStep []).steps) := by
  have reproduced : (verifyRecord uuidSchema plainFormat 0 (oneStep []) {}).map (·.ok) =
      .ok true := by decide +kernel
  obtain ⟨result, run, verified⟩ := exists_result_of_ok reproduced
  exact (verified_acyclic_iff _ _ _ _ _ result run verified).1.mpr (by decide)

/-- A step that names itself through the task's id is verified. -/
theorem selfSupporting_verified :
    ¬ ∀ (schema : SchemaLibrary) (format : NumberFormat) (now : Nat) (record : DerivationRecord)
      (result : VerificationResult), verifyRecord schema format now record {} = .ok result →
      result.ok = true → Acyclic (Uses record.steps) := by
  intro sound
  have reproduced : (verifyRecord uuidSchema plainFormat 0 selfSupporting {}).map (·.ok) =
      .ok true := by decide +kernel
  obtain ⟨result, run, verified⟩ := exists_result_of_ok reproduced
  refine sound _ _ _ _ result run verified 0 (.single ?_)
  exact ⟨_, rfl, _, rfl, List.mem_singleton.mpr rfl⟩

end Senars.Derivations
