/-
This file proves what the derivation bound of a cycle comes to, with and without
budgets bound.

The tasks that survive the depth limit and the check for repeats, before the cycle
is interrupted or has given as many results as it was asked for, are a list the
bound has no part in. A cycle yields the first of them: without budgets as many as
the bound says, and with budgets one more, since a task is paid for after it is
yielded and the last charge that fits lets the loop go on to the next.
-/

import Senars.Control.InferenceController

namespace Senars.Control

open Library Library.Flow Terms Senars.Algebra

/-! ### The tasks that survive -/

section

variable (config : InferenceConfig)

/-- Whether a task is neither too deep nor a repeat. -/
def admits (detector : CircularDetector) (task : Task) : Bool × CircularDetector :=
  if exceedsDepthLimit task config.maxDerivationDepth then (false, detector)
  else (!(isCircular config detector task).1, (isCircular config detector task).2)

/-- The admitted tasks of a list. -/
def admitted (detector : CircularDetector) : List Task → List Task
  | [] => []
  | task :: rest =>
    if (admits config detector task).1 then task :: admitted (admits config detector task).2 rest
    else admitted (admits config detector task).2 rest

/-- The detector after a list of tasks. -/
def detectorAfter (detector : CircularDetector) (tasks : List Task) : CircularDetector :=
  tasks.foldl (fun detector task => (admits config detector task).2) detector

theorem admitted_append (detector : CircularDetector) (first second : List Task) :
    admitted config detector (first ++ second) =
      admitted config detector first ++
        admitted config (detectorAfter config detector first) second := by
  induction first generalizing detector with
  | nil => rfl
  | cons task rest ih =>
    simp only [List.cons_append, admitted, ih, detectorAfter, List.foldl_cons]
    split <;> rfl

end

/-- The tasks of a stream that arrive before the first interruption. -/
def beforeInterruption (stream : List Derived) : List Task :=
  (stream.takeWhile fun derived => !derived.interrupted).map Derived.task

/-- The stream is interrupted somewhere. -/
def cutShort (stream : List Derived) : Bool := stream.any Derived.interrupted

/-- The derived tasks a cycle meets before it is interrupted. -/
def reached : List SampledConcept → List Task
  | [] => []
  | concept :: rest =>
    if concept.interrupted then []
    else
      match concept.beliefTask with
      | none => reached rest
      | some _ =>
        beforeInterruption concept.derive ++ if cutShort concept.derive then [] else reached rest

/-- The derived tasks that survive everything but the derivation bound. -/
def survivors (config : InferenceConfig) (detector : CircularDetector) (maxResults : Nat)
    (concepts : List SampledConcept) : List Task :=
  (admitted config detector (reached concepts)).take maxResults

/-! ### What one emission leaves room for -/

/-- How many more tasks a cycle can yield: at least one, and no more than the results it was
asked for and the derivation bound leave. -/
def Allows (config : InferenceConfig) (maxResults : Nat) (state : CycleState) (room : Nat) : Prop :=
  0 < room ∧
    match state.budgets with
    | .unbudgeted =>
      room = min (config.maxDerivationsPerStep - state.derivationCount)
        (maxResults - state.emitted)
    | .bound budgets =>
      ∃ derivations premises, budgets.spend .derivations = some derivations ∧
        budgets.spend .premises = some premises ∧
        room = min (derivations.ceiling + 1 - derivations.spent) (maxResults - state.emitted)

section

variable {config : InferenceConfig} {maxResults room : Nat} {state : CycleState}

theorem Allows.le_results (allows : Allows config maxResults state room) :
    room ≤ maxResults - state.emitted := by
  obtain ⟨_, left⟩ := allows
  split at left
  · exact left ▸ min_le_right _ _
  · obtain ⟨_, _, _, _, same⟩ := left
    exact same ▸ min_le_right _ _

theorem Allows.withDetector (allows : Allows config maxResults state room)
    (detector : CircularDetector) :
    Allows config maxResults { state with detector := detector } room := allows

theorem emit_spec (allows : Allows config maxResults state room) (task : Task) :
    (emit config maxResults state task).yielded = [task] ∧
      (emit config maxResults state task).state.detector = state.detector ∧
      (emit config maxResults state task).state.budgets.spend .premises =
        state.budgets.spend .premises ∧
      ((emit config maxResults state task).returned = true ∧ room = 1 ∨
        (emit config maxResults state task).returned = false ∧
          Allows config maxResults (emit config maxResults state task).state (room - 1)) := by
  obtain ⟨derivationCount, emitted, detector, budgets⟩ := state
  obtain ⟨positive, left⟩ := allows
  by_cases full : maxResults ≤ emitted + 1
  · have last := Allows.le_results ⟨positive, left⟩
    simp only [emit, if_pos full, true_and]
    simp only at last
    exact .inl (by omega)
  · cases budgets with
    | unbudgeted =>
      simp only at left
      simp only [emit, if_neg full, derivationBudgetSpent, ControlBudgetPort.budgeted,
        Bool.false_eq_true, if_false, decide_eq_true_eq, decide_eq_false_iff_not, Allows, true_and]
      omega
    | bound budgets =>
      obtain ⟨derivations, premises, spentKnown, premisesKnown, same⟩ := left
      have others : (budgets.charge .derivations 1).2.spend .premises = budgets.spend .premises :=
        ControlBudgets.charge_spend_of_ne (by decide) budgets 1
      simp only [emit, if_neg full, derivationBudgetSpent, ControlBudgetPort.budgeted, if_true,
        ControlBudgetPort.charge, ControlBudgetPort.spend, others, true_and]
      rcases ControlBudgets.charge_open spentKnown 1 with
        ⟨fits, granted, after⟩ | ⟨beyond, refused, _⟩
      · refine .inr ⟨by rw [granted]; rfl, ?_, _, premises, after, others ▸ premisesKnown, ?_⟩
        · simp only at same fits
          omega
        · simp only at same fits ⊢
          omega
      · refine .inl ⟨by rw [refused]; rfl, ?_⟩
        omega

/-! ### What a stream yields -/

variable {derived : Derived} {stream : List Derived}

theorem beforeInterruption_cons_of_interrupted (interrupted : derived.interrupted = true) :
    beforeInterruption (derived :: stream) = [] := by
  simp [beforeInterruption, interrupted]

theorem beforeInterruption_cons (going : derived.interrupted = false) :
    beforeInterruption (derived :: stream) = derived.task :: beforeInterruption stream := by
  simp [beforeInterruption, going]

theorem cutShort_cons (going : derived.interrupted = false) :
    cutShort (derived :: stream) = cutShort stream := by
  simp [cutShort, going]

/-- What a loop over a stream leaves: it returned, with the room used up or interrupted, or it
goes on with what is left of the room. -/
def Leaves (config : InferenceConfig) (maxResults room : Nat) (detector : CircularDetector)
    (stream : List Derived) (flow : Flow Task CycleState) : Prop :=
  flow.returned = true ∧
      (room ≤ (admitted config detector (beforeInterruption stream)).length ∨
        cutShort stream = true) ∨
    flow.returned = false ∧ cutShort stream = false ∧
      flow.state.detector = detectorAfter config detector (beforeInterruption stream) ∧
      Allows config maxResults flow.state
        (room - (admitted config detector (beforeInterruption stream)).length)

theorem derivedTurn_of_skipped (going : derived.interrupted = false)
    (skipped : (admits config state.detector derived.task).1 = false) :
    derivedTurn config maxResults state derived =
      pass { state with detector := (admits config state.detector derived.task).2 } := by
  rw [derivedTurn, if_neg (going ▸ Bool.false_ne_true)]
  by_cases deep : exceedsDepthLimit derived.task config.maxDerivationDepth = true
  · rw [if_pos deep, admits, if_pos deep]
  · rw [admits, if_neg deep] at skipped ⊢
    have repeated : (isCircular config state.detector derived.task).1 = true := by
      simpa using skipped
    rw [if_neg deep]
    simp only [repeated, if_true]

theorem derivedTurn_of_admitted (going : derived.interrupted = false)
    (fresh : (admits config state.detector derived.task).1 = true) :
    derivedTurn config maxResults state derived =
      emit config maxResults
        { state with detector := (admits config state.detector derived.task).2 }
        derived.task := by
  rw [derivedTurn, if_neg (going ▸ Bool.false_ne_true)]
  by_cases deep : exceedsDepthLimit derived.task config.maxDerivationDepth = true
  · rw [admits, if_pos deep] at fresh
    exact absurd fresh Bool.false_ne_true
  · rw [admits, if_neg deep] at fresh ⊢
    have new : (isCircular config state.detector derived.task).1 = false := by
      simpa using fresh
    rw [if_neg deep]
    simp only [new, Bool.false_eq_true, if_false]

theorem stream_spec (stream : List Derived) (allows : Allows config maxResults state room) :
    (forOf (derivedTurn config maxResults) state stream).yielded =
        (admitted config state.detector (beforeInterruption stream)).take room ∧
      (forOf (derivedTurn config maxResults) state stream).state.budgets.spend .premises =
        state.budgets.spend .premises ∧
      Leaves config maxResults room state.detector stream
        (forOf (derivedTurn config maxResults) state stream) := by
  induction stream generalizing state room with
  | nil => exact ⟨List.take_nil.symm, rfl, .inr ⟨rfl, rfl, rfl, allows⟩⟩
  | cons derived rest ih =>
    rw [forOf]
    cases going : derived.interrupted with
    | true =>
      have stopped : derivedTurn config maxResults state derived = exit state := by
        rw [derivedTurn, if_pos going]
      rw [stopped, beforeInterruption_cons_of_interrupted going]
      exact ⟨List.take_nil.symm, rfl, .inl ⟨rfl, .inr (by simp [cutShort, going])⟩⟩
    | false =>
      cases admission : (admits config state.detector derived.task).1 with
      | false =>
        have kept : admitted config state.detector (beforeInterruption (derived :: rest)) =
            admitted config (admits config state.detector derived.task).2
              (beforeInterruption rest) := by
          rw [beforeInterruption_cons going, admitted, if_neg (by rw [admission]; decide)]
        rw [derivedTurn_of_skipped going admission, kept]
        have later := ih
          (allows.withDetector (admits config state.detector derived.task).2)
        refine ⟨later.1, later.2.1, ?_⟩
        unfold Leaves
        rw [kept, cutShort_cons going, beforeInterruption_cons going]
        exact later.2.2
      | true =>
        have kept : admitted config state.detector (beforeInterruption (derived :: rest)) =
            derived.task :: admitted config (admits config state.detector derived.task).2
              (beforeInterruption rest) := by
          rw [beforeInterruption_cons going, admitted, if_pos admission]
        rw [derivedTurn_of_admitted going admission, kept]
        obtain ⟨yielded, sameDetector, samePremises, ending⟩ :=
          emit_spec (allows.withDetector (admits config state.detector derived.task).2) derived.task
        rcases ending with ⟨returned, rfl⟩ | ⟨goes, left⟩
        · rw [next_of_returned returned]
          refine ⟨by rw [yielded]; rfl, samePremises, .inl ⟨returned, .inl ?_⟩⟩
          rw [kept]
          simp
        · obtain ⟨laterYielded, laterPremises, laterLeaves⟩ := ih left
          obtain ⟨before, rfl⟩ : ∃ before, room = before + 1 :=
            Nat.exists_eq_succ_of_ne_zero allows.1.ne'
          rw [next_of_going goes]
          rw [sameDetector] at laterYielded laterLeaves
          refine ⟨?_, laterPremises.trans samePremises, ?_⟩
          · simp only [yielded, laterYielded]
            rfl
          · unfold Leaves at laterLeaves ⊢
            rw [kept, cutShort_cons going, beforeInterruption_cons going]
            rw [List.length_cons]
            simp only [Nat.add_sub_cancel, Nat.add_le_add_iff_right, Nat.add_sub_add_right]
              at laterLeaves ⊢
            exact laterLeaves

/-! ### What a cycle yields -/

/-- No charge of the premises was refused. -/
def PremisesAfforded (budgets : ControlBudgetPort) : Prop :=
  ∀ row, budgets.spend .premises = some row → row.terminationReason = none

theorem charge_premises_spec (allows : Allows config maxResults state room) :
    ((state.budgets.charge .premises).1 = true ∧
      Allows config maxResults { state with budgets := (state.budgets.charge .premises).2 } room) ∨
    ((state.budgets.charge .premises).1 = false ∧
      ¬ PremisesAfforded (state.budgets.charge .premises).2) := by
  obtain ⟨derivationCount, emitted, detector, budgets⟩ := state
  obtain ⟨positive, left⟩ := allows
  cases budgets with
  | unbudgeted => exact .inl ⟨rfl, positive, left⟩
  | bound budgets =>
    obtain ⟨derivations, premises, spentKnown, premisesKnown, same⟩ := left
    have others : (budgets.charge .premises 1).2.spend .derivations = budgets.spend .derivations :=
      ControlBudgets.charge_spend_of_ne (by decide) budgets 1
    rcases ControlBudgets.charge_open premisesKnown 1 with
      ⟨_, granted, after⟩ | ⟨_, refused, reason, after⟩
    · exact .inl ⟨granted, positive, derivations, _, others.trans spentKnown, after, same⟩
    · refine .inr ⟨refused, fun afforded => ?_⟩
      exact absurd (afforded _ after) (Option.some_ne_none reason)

theorem concepts_spec (concepts : List SampledConcept)
    (allows : Allows config maxResults state room)
    (afforded : PremisesAfforded
      (forOf (conceptTurn config maxResults) state concepts).state.budgets) :
    (forOf (conceptTurn config maxResults) state concepts).yielded =
      (admitted config state.detector (reached concepts)).take room := by
  induction concepts generalizing state room with
  | nil => exact List.take_nil.symm
  | cons concept rest ih =>
    have wanted : decide (maxResults ≤ state.emitted) = false := by
      have left := allows.le_results
      have positive := allows.1
      exact decide_eq_false (by omega)
    rw [forOf, conceptTurn, wanted, Bool.or_false] at afforded ⊢
    rw [reached]
    cases going : concept.interrupted with
    | true => exact List.take_nil.symm
    | false =>
      simp only [going, Bool.false_eq_true, if_false] at afforded ⊢
      cases belief : concept.beliefTask with
      | none =>
        simp only [belief, pass_next] at afforded ⊢
        exact ih allows afforded
      | some task =>
        simp only [belief] at afforded ⊢
        rcases charge_premises_spec allows with ⟨granted, charged⟩ | ⟨refused, seen⟩
        · simp only [granted, if_true] at afforded ⊢
          obtain ⟨yielded, _, leaves⟩ := stream_spec concept.derive charged
          rcases leaves with ⟨returned, ended⟩ | ⟨goes, whole, sameDetector, left⟩
          · rw [next_of_returned returned, yielded]
            rcases ended with full | cut
            · rw [admitted_append, List.take_append_of_le_length full]
            · rw [if_pos cut, List.append_nil]
          · rw [next_of_going goes] at afforded ⊢
            have later := ih left afforded
            rw [sameDetector] at later
            have spare : (admitted config state.detector
                (beforeInterruption concept.derive)).length < room := by
              have positive := left.1
              simp only at positive
              omega
            rw [whole, if_neg Bool.false_ne_true, admitted_append, List.take_append,
              List.take_of_length_le spare.le]
            rw [yielded, later, List.take_of_length_le spare.le]
        · simp only [refused, Bool.false_eq_true, if_false, exit_next] at afforded
          exact absurd afforded seen

theorem concepts_of_full (full : maxResults ≤ state.emitted) (concepts : List SampledConcept) :
    (forOf (conceptTurn config maxResults) state concepts).yielded = [] := by
  cases concepts with
  | nil => rfl
  | cons concept rest =>
    rw [forOf, conceptTurn, decide_eq_true full, Bool.or_true]
    rfl

variable {detector : CircularDetector} {concepts : List SampledConcept}

theorem cycle_spec {budgets bound} (starts : 0 < maxResults →
      Allows config maxResults ⟨0, 0, detector, budgets⟩ (min bound maxResults))
    (afforded : PremisesAfforded
      (cycle config detector budgets maxResults concepts).state.budgets) :
    (cycle config detector budgets maxResults concepts).yielded =
      (survivors config detector maxResults concepts).take bound := by
  unfold survivors
  rcases Nat.eq_zero_or_pos maxResults with rfl | asked
  · rw [List.take_zero, List.take_nil]
    exact concepts_of_full (Nat.le_refl 0) concepts
  · rw [List.take_take]
    exact concepts_spec concepts (starts asked) afforded

/-- No budgets are bound. -/
def Unbudgeted (state : CycleState) : Prop := state.budgets = .unbudgeted

theorem derivedTurn_unbudgeted (state : CycleState) (derived : Derived)
    (unbudgeted : Unbudgeted state) :
    Unbudgeted (derivedTurn config maxResults state derived).state := by
  obtain ⟨derivationCount, emitted, detector, budgets⟩ := state
  cases unbudgeted
  unfold derivedTurn emit derivationBudgetSpent
  simp only [ControlBudgetPort.budgeted, Bool.false_eq_true, if_false]
  split_ifs <;> rfl

theorem conceptTurn_unbudgeted (state : CycleState) (concept : SampledConcept)
    (unbudgeted : Unbudgeted state) :
    Unbudgeted (conceptTurn config maxResults state concept).state := by
  obtain ⟨derivationCount, emitted, detector, budgets⟩ := state
  cases unbudgeted
  unfold conceptTurn
  split
  · rfl
  · split
    · rfl
    · exact forOf_keeps derivedTurn_unbudgeted _ _ rfl

theorem cycle_unbudgeted (positive : 0 < config.maxDerivationsPerStep) :
    (cycle config detector .unbudgeted maxResults concepts).yielded =
      (survivors config detector maxResults concepts).take config.maxDerivationsPerStep := by
  refine cycle_spec (fun asked => ⟨lt_min positive asked, rfl⟩) ?_
  have unbudgeted : Unbudgeted (cycle config detector .unbudgeted maxResults concepts).state :=
    forOf_keeps conceptTurn_unbudgeted _ _ rfl
  rw [unbudgeted]
  exact fun row known => absurd known (by simp [ControlBudgetPort.spend])

theorem cycle_budgeted {budgets : ControlBudgets} {ceiling} (known :
      (budgets.beginCycle.spend .derivations).map ControlBudgets.Spend.ceiling = some ceiling)
    (afforded : PremisesAfforded
      (cycle config detector (.bound budgets.beginCycle) maxResults concepts).state.budgets) :
    (cycle config detector (.bound budgets.beginCycle) maxResults concepts).yielded =
      (survivors config detector maxResults concepts).take (ceiling + 1) := by
  obtain ⟨declared, derivations⟩ := ControlBudgets.beginCycle_spend budgets .derivations
  obtain ⟨_, premises⟩ := ControlBudgets.beginCycle_spend budgets .premises
  have same : declared = ceiling := by simpa [derivations] using known
  exact cycle_spec (fun asked => ⟨lt_min (Nat.succ_pos ceiling) asked, _, _, derivations, premises,
    by rw [same]; rfl⟩) afforded

/-- The bound means the same in both cycles: the one with budgets yields no more tasks than it,
and the tasks the one without budgets yields. -/
def BoundAgrees (config : InferenceConfig) (detector : CircularDetector) (budgets : ControlBudgets)
    (maxResults : Nat) (concepts : List SampledConcept) : Prop :=
  (cycle config detector (.bound budgets.beginCycle) maxResults concepts).yielded.length ≤
      config.maxDerivationsPerStep ∧
    (cycle config detector (.bound budgets.beginCycle) maxResults concepts).yielded =
      (cycle config detector .unbudgeted maxResults concepts).yielded

/-- The bound means the same with and without budgets exactly where it does not bind: where no
more derived tasks survive than the bound. -/
theorem boundAgrees_iff (budgets : ControlBudgets) (positive : 1 ≤ config.maxDerivationsPerStep)
    (known : (budgets.beginCycle.spend .derivations).map ControlBudgets.Spend.ceiling =
      some config.maxDerivationsPerStep)
    (afforded : PremisesAfforded
      (cycle config detector (.bound budgets.beginCycle) maxResults concepts).state.budgets) :
    BoundAgrees config detector budgets maxResults concepts ↔
      (survivors config detector maxResults concepts).length ≤ config.maxDerivationsPerStep := by
  rw [BoundAgrees, cycle_budgeted known afforded, cycle_unbudgeted positive, List.length_take]
  constructor
  · intro agrees
    have short := agrees.1
    omega
  · intro few
    rw [List.take_of_length_le few, List.take_of_length_le (Nat.le_succ_of_le few)]
    exact ⟨by omega, rfl⟩

end

/-! ### One task more than the bound -/

/-- A belief about an atom. -/
def atomTask (name : String) : Task where
  term := .atom name
  truth := normalizeTruth 1 (.finite (9 / 10))
  stamp := ⟨name, []⟩

/-- One concept that derives these atoms. -/
def oneConcept (names : List String) : List SampledConcept :=
  [⟨false, some (atomTask "bird"), names.map fun name => ⟨atomTask name, false⟩⟩]

/-- A bound of one derivation. -/
def oneDerivation : InferenceConfig where
  maxDerivationsPerStep := 1
  maxDerivationDepth := 10
  enableCircularDetection := true
  toText _ := "1"

/-- Fresh budgets with a ceiling of one derivation. -/
def oneDerivationBudgets : ControlBudgets where
  gate := ⟨⟨1000, 100, 10000, 50, none, zeroConsumed⟩, fun _ => none⟩
  overrides := {
    limit := fun scopeId => if scopeId = .derivations then some 1 else none
    positive := by
      intro scopeId given same
      split at same
      · exact .inr (Option.some.inj same ▸ Nat.one_pos)
      · exact absurd same (Option.some_ne_none given).symm }

theorem oneConcept_afforded (names : List String)
    (spent : (cycle oneDerivation ⟨[]⟩ (.bound oneDerivationBudgets.beginCycle) 100
      (oneConcept names)).state.budgets.spend .premises = some ⟨64, 1, none⟩) :
    PremisesAfforded (cycle oneDerivation ⟨[]⟩ (.bound oneDerivationBudgets.beginCycle) 100
      (oneConcept names)).state.budgets := by
  intro row known
  rw [spent] at known
  exact Option.some.inj known ▸ rfl

/-- One survivor is within a bound of one. -/
theorem bound_of_one_holds :
    BoundAgrees oneDerivation ⟨[]⟩ oneDerivationBudgets 100 (oneConcept ["robin"]) :=
  (boundAgrees_iff oneDerivationBudgets (by decide) (by decide +kernel)
    (oneConcept_afforded _ (by decide +kernel))).mpr (by decide +kernel)

/-- With a bound of one the cycle with budgets yields two tasks, and the one without yields
one. -/
theorem bound_of_one_yields_two :
    (oneDerivationBudgets.beginCycle.spend .derivations).map ControlBudgets.Spend.ceiling =
        some oneDerivation.maxDerivationsPerStep ∧
      PremisesAfforded (cycle oneDerivation ⟨[]⟩ (.bound oneDerivationBudgets.beginCycle) 100
        (oneConcept ["robin", "swan"])).state.budgets ∧
      (cycle oneDerivation ⟨[]⟩ (.bound oneDerivationBudgets.beginCycle) 100
        (oneConcept ["robin", "swan"])).yielded.length = 2 ∧
      (cycle oneDerivation ⟨[]⟩ .unbudgeted 100 (oneConcept ["robin", "swan"])).yielded.length =
        1 ∧
      ¬ BoundAgrees oneDerivation ⟨[]⟩ oneDerivationBudgets 100 (oneConcept ["robin", "swan"]) := by
  have two : (cycle oneDerivation ⟨[]⟩ (.bound oneDerivationBudgets.beginCycle) 100
      (oneConcept ["robin", "swan"])).yielded.length = 2 := by decide +kernel
  refine ⟨by decide +kernel, oneConcept_afforded _ (by decide +kernel), two,
    by decide +kernel, fun agrees => ?_⟩
  have short : 2 ≤ 1 := two ▸ agrees.1
  exact absurd short (by decide)

end Senars.Control
