/-
This file compares the decision that a resolution reports with the route that it takes. The
decision comes from the risk of a patch that touches nothing and from the mode, the route
from the risk of the proposal itself, its kind and the actuators.

So the decision merges whatever is asked in the one mode of automatic merges, a high risk
included, and never in the other modes that let an actuator be called. The two agree
exactly where, in the first, the proposal is neither of high risk nor without an actuator,
and in the others it asks no actuator.
-/

import Senars.Governance.Pipeline

namespace Senars.Governance

open Library Library.JsNumber Kernel

/-- What the decision of a report says of what was done. -/
structure GovernanceResolver.Resolution.Agrees (proposal : SelfImprovementProposal)
    (resolution : GovernanceResolver.Resolution) : Prop where
  applied : resolution.routing.applied = true → resolution.decision.action = .autoMerge
  highRisk : proposal.riskTier = .high → resolution.decision.action ≠ .autoMerge
  humanApproval :
    resolution.routing.route = .humanApproval → resolution.decision.action ≠ .autoMerge

/-- A proposal asks a given actuator, with a payload that has what the actuator needs. -/
def AsksActuator (numberText : JsNumber → String) (actuators : ProposalActuators) (now : String)
    (proposal : SelfImprovementProposal) : Prop :=
  match proposal.riskTier with
  | .high => False
  | .medium => Applies numberText actuators proposal
  | .low =>
    (ProposalRouter.focusWeightCall actuators proposal).isSome ∨
      (ProposalRouter.schemaEvolutionCall actuators proposal).isSome ∨
      (ProposalRouter.ruleAdoptionCall actuators now proposal).isSome

/-- Where the decision of a mode is what the router does in it. An actuator that throws leaves no
report. -/
def DecidedAsRouted (numberText : JsNumber → String) (actuators : ProposalActuators) (now : String)
    (proposal : SelfImprovementProposal) : AutonomyMode → Prop
  | .observeOnly | .proposeOnly => True
  | .sandboxExecute | .humanApprovedProduction =>
    AsksActuator numberText actuators now proposal → actuators.throws 0 = true
  | .lowRiskAutoMerge =>
    proposal.riskTier = .medium ∨
      proposal.riskTier = .low ∧
        (AsksActuator numberText actuators now proposal ∨ proposal.kind = .strategySwitch ∨
          proposal.kind = .schemaPromotion)

section

variable (numberText : JsNumber → String) (proposal : SelfImprovementProposal)
  (mode : AutonomyMode) (actuators : ProposalActuators) (now : String)

/-! ### The decision -/

theorem risk_assessRisk : (assessRisk proposal).risk = .low := by
  have plain : classify
      { affectedFiles := [], affectedComponents := ["cognitive-params"], linesAdded := 0,
        linesRemoved := 0 } = { risk := .low, score := 0, factors := [] } := by
    decide +kernel
  rw [assessRisk, plain]

theorem autoMerge_decision_iff :
    (decision (assessRisk proposal) mode).action = .autoMerge ↔ mode = .lowRiskAutoMerge := by
  have low := risk_assessRisk proposal
  cases mode <;> simp [decision, low]

/-! ### The route -/

namespace ProposalRouter

variable (router : ProposalRouter)

theorem applied_route_iff (validated : Bool) :
    (router.route numberText proposal mode actuators validated now).routing.applied = true ↔
      (router.route numberText proposal mode actuators validated now).call.isSome := by
  unfold route
  split
  · simp [holdForApproval]
  · unfold routeMedium
    split
    · simp [holdForValidation]
    · dsimp only
      split
      · split <;> simp [autoApply, holdForValidation]
      · simp [holdForValidation]
  · unfold routeLow
    split
    · simp [holdForApproval]
    · split
      · simp [autoApply]
      · split
        · simp
        · split
          · simp [autoApply]
          · split
            · simp [autoApply]
            · split <;> simp [holdForApproval]

theorem isSome_call_routeLow :
    (router.routeLow proposal mode actuators now).call.isSome ↔
      mode.permitsExecution = true ∧ ((focusWeightCall actuators proposal).isSome ∨
        (schemaEvolutionCall actuators proposal).isSome ∨
        (ruleAdoptionCall actuators now proposal).isSome) := by
  unfold routeLow
  split
  · rename_i refused
    have never : mode.permitsExecution = false := by simpa using refused
    simp [holdForApproval, never]
  · rename_i permitted
    have permits : mode.permitsExecution = true := by simpa using permitted
    split
    · rename_i call asked
      simp [autoApply, permits, asked]
    · rename_i noWeight
      split
      · rename_i switch
        simp [noWeight, schemaEvolutionCall, ruleAdoptionCall, switch.1]
      · split
        · rename_i call asked
          simp [autoApply, permits, asked]
        · rename_i noPatch
          split
          · rename_i call asked
            simp [autoApply, permits, asked]
          · rename_i noRule
            split <;> simp [holdForApproval, noWeight, noPatch, noRule]

theorem isSome_call_route :
    (router.route numberText proposal mode actuators true now).call.isSome ↔
      mode.permitsExecution = true ∧ AsksActuator numberText actuators now proposal := by
  unfold route AsksActuator
  cases proposal.riskTier with
  | high => simp [holdForApproval]
  | medium =>
    show (router.routeMedium proposal mode actuators
      (some (validate numberText proposal))).call.isSome ↔ _
    rw [isSome_call_routeMedium]
    exact and_comm
  | low => exact isSome_call_routeLow proposal mode actuators now router

theorem humanApproval_routeLow_iff (permits : mode.permitsExecution = true)
    (notSandbox : mode ≠ .sandboxExecute) :
    (router.routeLow proposal mode actuators now).routing.route = .humanApproval ↔
      ¬ (((focusWeightCall actuators proposal).isSome ∨
          (schemaEvolutionCall actuators proposal).isSome ∨
          (ruleAdoptionCall actuators now proposal).isSome) ∨
        proposal.kind = .strategySwitch ∨ proposal.kind = .schemaPromotion) := by
  unfold routeLow
  rw [if_neg (by simp [permits])]
  split
  · rename_i call asked
    simp [autoApply, asked]
  · rename_i noWeight
    split
    · rename_i switch
      simp [switch.1]
    · rename_i noSwitch
      have kind : proposal.kind ≠ .strategySwitch := fun same => noSwitch ⟨same, notSandbox⟩
      split
      · rename_i call asked
        simp [autoApply, asked]
      · rename_i noPatch
        split
        · rename_i call asked
          simp [autoApply, asked]
        · rename_i noRule
          split
          · rename_i promotion
            simp [promotion]
          · rename_i noPromotion
            simp [holdForApproval, noWeight, noPatch, noRule, kind, noPromotion]

theorem route_routeMedium (verdict : Option ValidationVerdict) :
    (router.routeMedium proposal mode actuators verdict).routing.route ≠ .humanApproval := by
  unfold routeMedium
  split
  · simp [holdForValidation]
  · dsimp only
    split
    · split <;> simp [autoApply, holdForValidation]
    · simp [holdForValidation]

end ProposalRouter

/-! ### The report -/

namespace GovernanceResolver

variable (resolver : GovernanceResolver) (inputs : ResolutionInputs)

theorem resolve_eq_some_iff (resolution : Resolution) :
    (resolver.resolve numberText proposal mode actuators inputs).2.2 = some resolution ↔
      ¬ ((resolver.router.route numberText proposal mode actuators true inputs.now).call.isSome ∧
          actuators.throws 0 = true) ∧
        resolution = ⟨decision (assessRisk proposal) mode,
          (resolver.router.route numberText proposal mode actuators true inputs.now).routing,
          inputs.adaptationId⟩ := by
  unfold resolve
  dsimp only
  split
  · rename_i thrown
    simp [thrown]
  · rename_i returned
    simp only [returned, not_false_eq_true, true_and, Option.some.injEq]
    exact eq_comm

variable {resolution : Resolution}

theorem agrees_iff_not_applied (decided : resolution.decision.action ≠ .autoMerge) :
    resolution.Agrees proposal ↔ ¬ resolution.routing.applied = true :=
  ⟨fun agrees applied => decided (agrees.applied applied),
    fun notApplied =>
      ⟨fun applied => absurd applied notApplied, fun _ => decided, fun _ => decided⟩⟩

theorem agrees_iff_autoMerge (decided : resolution.decision.action = .autoMerge) :
    resolution.Agrees proposal ↔
      proposal.riskTier ≠ .high ∧ resolution.routing.route ≠ .humanApproval :=
  ⟨fun agrees => ⟨fun high => agrees.highRisk high decided,
      fun human => agrees.humanApproval human decided⟩,
    fun ⟨notHigh, notHuman⟩ => ⟨fun _ => decided, fun high => absurd high notHigh,
      fun human => absurd human notHuman⟩⟩

theorem forall_reported_iff (holds : Resolution → Prop) :
    (∀ resolution,
        (resolver.resolve numberText proposal mode actuators inputs).2.2 = some resolution →
          holds resolution) ↔
      (¬ ((resolver.router.route numberText proposal mode actuators true inputs.now).call.isSome ∧
          actuators.throws 0 = true) →
        holds ⟨decision (assessRisk proposal) mode,
          (resolver.router.route numberText proposal mode actuators true inputs.now).routing,
          inputs.adaptationId⟩) := by
  simp only [resolve_eq_some_iff]
  constructor
  · intro all returned
    exact all _ ⟨returned, rfl⟩
  · rintro only resolution ⟨returned, rfl⟩
    exact only returned

theorem reported_agrees_of_not_autoMerge (notMerged : mode ≠ .lowRiskAutoMerge) :
    (∀ resolution,
        (resolver.resolve numberText proposal mode actuators inputs).2.2 = some resolution →
          resolution.Agrees proposal) ↔
      (mode.permitsExecution = true → AsksActuator numberText actuators inputs.now proposal →
        actuators.throws 0 = true) := by
  have decided := (autoMerge_decision_iff proposal mode).not.mpr notMerged
  have applied := ProposalRouter.applied_route_iff numberText proposal mode actuators inputs.now
  have called := ProposalRouter.isSome_call_route numberText proposal mode actuators inputs.now
  rw [forall_reported_iff, agrees_iff_not_applied proposal decided, applied, called]
  tauto

theorem reported_agrees_lowRiskAutoMerge :
    (∀ resolution, (resolver.resolve numberText proposal .lowRiskAutoMerge actuators
        inputs).2.2 = some resolution → resolution.Agrees proposal) ↔
      proposal.riskTier = .medium ∨
        proposal.riskTier = .low ∧ (AsksActuator numberText actuators inputs.now proposal ∨
          proposal.kind = .strategySwitch ∨ proposal.kind = .schemaPromotion) := by
  have decided := (autoMerge_decision_iff proposal .lowRiskAutoMerge).mpr rfl
  rw [forall_reported_iff, agrees_iff_autoMerge proposal decided]
  cases tier : proposal.riskTier with
  | high => simp [ProposalRouter.route, tier, ProposalRouter.holdForApproval]
  | medium =>
    have notHuman := ProposalRouter.route_routeMedium proposal .lowRiskAutoMerge actuators
    simp [ProposalRouter.route, tier, notHuman]
  | low =>
    have human := ProposalRouter.humanApproval_routeLow_iff proposal .lowRiskAutoMerge actuators
      inputs.now resolver.router rfl (by decide)
    have asked := ProposalRouter.isSome_call_routeLow proposal .lowRiskAutoMerge actuators
    simp only [ProposalRouter.route, tier, AsksActuator, ne_eq, reduceCtorEq, not_false_eq_true,
      true_and, false_or, human, asked, not_not]
    constructor
    · intro agrees
      by_contra nothing
      exact nothing (agrees fun thrown => nothing (.inl thrown.1.2))
    · intro done _
      exact done

/-- The decision that is reported agrees with what was done exactly where, in the mode of automatic
merges, the proposal is of no high risk and something is done with it, and in the other modes that
permit execution no actuator is asked. -/
theorem reported_decision_agrees_iff :
    (∀ resolution,
        (resolver.resolve numberText proposal mode actuators inputs).2.2 = some resolution →
          resolution.Agrees proposal) ↔
      DecidedAsRouted numberText actuators inputs.now proposal mode := by
  have elsewhere := reported_agrees_of_not_autoMerge numberText proposal mode actuators resolver
    inputs
  cases mode with
  | observeOnly =>
    exact (elsewhere (by decide)).trans
      ⟨fun _ => trivial, fun _ permits => absurd permits (by decide)⟩
  | proposeOnly =>
    exact (elsewhere (by decide)).trans
      ⟨fun _ => trivial, fun _ permits => absurd permits (by decide)⟩
  | sandboxExecute => exact (elsewhere (by decide)).trans ⟨fun all => all rfl, fun asks _ => asks⟩
  | lowRiskAutoMerge =>
    exact reported_agrees_lowRiskAutoMerge numberText proposal actuators resolver inputs
  | humanApprovedProduction =>
    exact (elsewhere (by decide)).trans ⟨fun all => all rfl, fun asks _ => asks⟩

end GovernanceResolver

end

/-! ### A patch of high risk -/

/-- A patch that is to be applied, of high risk. -/
def kernelPatch : SelfImprovementProposal where
  proposalId := "proposal-2"
  kind := .patchApply
  riskTier := .high
  payload := OrderedMap.ofList []

/-- A patch of high risk goes to a human, with the decision that it is merged. -/
theorem highRisk_reported_autoMerge : ¬ ∀ (numberText : JsNumber → String)
    (resolver : GovernanceResolver) (proposal : SelfImprovementProposal) (mode : AutonomyMode)
    (actuators : ProposalActuators) (inputs : ResolutionInputs)
    (resolution : GovernanceResolver.Resolution),
    (resolver.resolve numberText proposal mode actuators inputs).2.2 = some resolution →
      resolution.Agrees proposal := by
  intro always
  have agrees :=
    always (fun _ => "") {} kernelPatch .lowRiskAutoMerge {} ⟨"adaptation-1", "0"⟩ _ rfl
  exact agrees.highRisk rfl (by decide +kernel)

end Senars.Governance
