/-
This file is the governance of proposals for self-improvement: a proposal is routed by
its risk and the mode of autonomy, and what is held for validation is routed again when
it is drained.

What is drained is routed in one mode whatever the mode in force is. So no actuator is
called against the mode exactly where what is held comes to nothing, or the mode in
force when it is drained permits execution.
-/

import Senars.Kernel.ActionGate
import Senars.Library.Text

namespace Senars.Governance

open Library Library.JsNumber Kernel

/-! ### Proposals -/

inductive CapabilityRisk where
  | low | medium | high
  deriving DecidableEq

inductive ProposalKind where
  | knobTune | focusWeight | strategySwitch | schemaPromotion | patchApply | testGenerate
  | schemaEvolution | mettaRuleAdoption
  deriving DecidableEq

def ProposalKind.text : ProposalKind → String
  | knobTune => "knob-tune"
  | focusWeight => "focus-weight"
  | strategySwitch => "strategy-switch"
  | schemaPromotion => "schema-promotion"
  | patchApply => "patch-apply"
  | testGenerate => "test-generate"
  | schemaEvolution => "schema-evolution"
  | mettaRuleAdoption => "metta-rule-adoption"

/-- A value of a payload. Of what is neither a text nor a number only its text is kept. -/
inductive PayloadValue where
  | text (value : String)
  | number (value : JsNumber)
  | list (shown : String)
  | other (shown : String)
  deriving DecidableEq

structure SelfImprovementProposal where
  proposalId : String
  kind : ProposalKind
  riskTier : CapabilityRisk
  payload : OrderedMap String PayloadValue

/-! ### Risk -/

inductive RiskLevel where
  | low | medium | high
  deriving DecidableEq

def guardrailFragments : List String :=
  ["ApprovalManager", "PolicyEngine", "nar/src/kernel/", "nar/src/gates/", "nar/src/capability/",
    "capability/wasi", "nar/src/rlfp/RewardModel", "nar/src/rlfp/PolicyOptimizer", "rlfp/",
    "kernel/src/schemas", "util/src/types/cognitive"]

def criticalComponents : List String :=
  ["approval-logic", "sandbox-config", "reward-functions", "autonomy-mode", "kernel-gates"]

/-- What the classifier reads of a patch. -/
structure PatchProposal where
  affectedFiles : List String
  affectedComponents : List String
  linesAdded : Nat
  linesRemoved : Nat
  coverageDelta : Option JsNumber := none

inductive RiskFactor where
  | criticalPath (file : String)
  | criticalComponent (component : String)
  | largeChurn
  | coverageDrop
  deriving DecidableEq

structure RiskAssessment where
  risk : RiskLevel
  score : Nat
  factors : List RiskFactor
  deriving DecidableEq

def RiskFactor.score : RiskFactor → Nat
  | criticalPath _ => 50
  | criticalComponent _ => 40
  | largeChurn => 10
  | coverageDrop => 15

/-- Classify a patch by what it touches and how much of it there is. -/
def classify (patch : PatchProposal) : RiskAssessment :=
  let paths := (patch.affectedFiles.filter fun file =>
    guardrailFragments.any fun fragment => includes file fragment).map
      RiskFactor.criticalPath
  let components := (patch.affectedComponents.filter (· ∈ criticalComponents)).map
    RiskFactor.criticalComponent
  let churn := if 500 < patch.linesAdded + patch.linesRemoved then [RiskFactor.largeChurn] else []
  let coverage :=
    if less (patch.coverageDelta.getD 0) (-5) then [RiskFactor.coverageDrop] else []
  let factors := paths ++ components ++ churn ++ coverage
  let score := (factors.map RiskFactor.score).sum
  { risk := if 40 ≤ score then .high else if 20 ≤ score then .medium else .low
    score
    factors }

/-- The risk of a proposal is that of a patch that touches nothing. -/
def assessRisk (_ : SelfImprovementProposal) : RiskAssessment :=
  classify
    { affectedFiles := [], affectedComponents := ["cognitive-params"], linesAdded := 0,
      linesRemoved := 0 }

inductive GovernanceAction where
  | autoMerge | createPR | requireHumanReview | reject
  deriving DecidableEq

structure GovernanceDecision where
  action : GovernanceAction
  reason : String
  reviewers : Option Nat := none
  deriving DecidableEq

def decision (risk : RiskAssessment) (mode : AutonomyMode) : GovernanceDecision :=
  if risk.risk = .high then
    { action := .requireHumanReview, reason := "HIGH risk requires human review",
      reviewers := some 2 }
  else
    match mode with
    | .observeOnly | .proposeOnly | .sandboxExecute =>
      { action := .requireHumanReview, reason := "Mode " ++ mode.text ++ " prohibits auto-merge",
        reviewers := some 1 }
    | .lowRiskAutoMerge =>
      if risk.risk = .low then
        { action := .autoMerge, reason := "LOW risk + auto-merge mode" }
      else { action := .createPR, reason := "MEDIUM risk requires review", reviewers := some 1 }
    | .humanApprovedProduction =>
      { action := .requireHumanReview, reason := "Production mode requires human approval",
        reviewers := some 1 }

/-! ### Validation -/

/-- The range of a knob. -/
structure KnobSpec where
  name : String
  min : ℚ
  max : ℚ

def knobSpecs : List KnobSpec :=
  [⟨"maxDerivationsPerStep", 10, 10000⟩, ⟨"maxDerivationDepth", 1, 20⟩,
    ⟨"maxRulesPerCycle", 1, 20⟩, ⟨"callTimeoutMs", 500, 60000⟩, ⟨"decayRate", 0, 1 / 2⟩,
    ⟨"cpuThrottleMs", 0, 100⟩, ⟨"maxLoops", 1, 20⟩, ⟨"activationDecayRate", 1 / 1000, 1 / 2⟩,
    ⟨"rankingMaxAdmissions", 10, 1000⟩, ⟨"rankingMinScore", 0, 1⟩,
    ⟨"systemOne.budgets.maxJudgmentCallsPerCycle", 1, 32⟩,
    ⟨"systemOne.budgets.maxConsensusPerCycle", 1, 8⟩,
    ⟨"systemOne.budgets.maxLatencyMsPerJudgment", 10, 200⟩,
    ⟨"systemOne.budgets.maxTokensPerCycle", 256, 32768⟩,
    ⟨"systemOne.budgets.maxMemoryMbPerCycle", 32, 2048⟩,
    ⟨"systemOne.provisional.cInitial", 1 / 100, 1 / 2⟩,
    ⟨"systemOne.provisional.decayRate", 1 / 20, 1⟩,
    ⟨"systemOne.provisional.maxTtlMs", 5000, 300000⟩]

def findKnobSpec (name : String) : Option KnobSpec := knobSpecs.find? (·.name = name)

structure ValidationVerdict where
  approved : Bool
  reason : String
  deriving DecidableEq

/-- `numberText` is the text of a number. -/
def stringOf (numberText : JsNumber → String) : Option PayloadValue → String
  | none => "undefined"
  | some (.text value) => value
  | some (.number value) => numberText value
  | some (.list shown) => shown
  | some (.other shown) => shown

def validate (numberText : JsNumber → String) (proposal : SelfImprovementProposal) :
    ValidationVerdict :=
  if proposal.kind ≠ .knobTune then
    { approved := false
      reason := "No automated checks for " ++ proposal.kind.text ++ "; requires human review" }
  else
    let knobName := stringOf numberText (proposal.payload.get "knob")
    match findKnobSpec knobName with
    | none =>
      { approved := false
        reason := "Unknown " ++ (if knobName.startsWith "systemOne." then "systemOne " else "") ++
          "knob '" ++ knobName ++ "'" }
    | some spec =>
      match proposal.payload.get "value" with
      | some (.number (.finite value)) =>
        let range := "[" ++ numberText (.finite spec.min) ++ ", " ++
          numberText (.finite spec.max) ++ "]"
        let assigned := "'" ++ spec.name ++ "'=" ++ numberText (.finite value)
        if value < spec.min ∨ spec.max < value then
          { approved := false, reason := assigned ++ " outside " ++ range }
        else { approved := true, reason := assigned ++ " within " ++ range }
      | _ => { approved := false, reason := "Non-numeric value for '" ++ spec.name ++ "'" }

/-! ### Routing -/

inductive ProposalRoute where
  | autoApply | sandboxValidate | humanApproval
  deriving DecidableEq

/-- The actuators that are given, and which of the calls to them throw, by their order. -/
structure ProposalActuators where
  applyFocusWeight : Bool := false
  applyKnob : Bool := false
  applySchemaPatch : Bool := false
  throws : Nat → Bool := fun _ => false

/-- A call of an actuator. -/
inductive Invocation where
  | focusWeight (focusId : String) (weight : JsNumber)
  | knob (knob : String) (value : JsNumber)
  | schemaPatch (schemaId mettaProgram : String) (sourceDerivationIds : PayloadValue)
  deriving DecidableEq

structure Routing where
  route : ProposalRoute
  applied : Bool
  reason : String
  deriving DecidableEq

structure ProposalRouter where
  awaitingValidation : List SelfImprovementProposal := []
  awaitingApproval : List SelfImprovementProposal := []

/-- What routing comes to: the call that is made, and the answer of where it goes. -/
structure Routed where
  router : ProposalRouter
  call : Option Invocation := none
  routing : Routing

namespace ProposalRouter

def holdForValidation (router : ProposalRouter) (proposal : SelfImprovementProposal)
    (reason : String) : Routed where
  router := { router with awaitingValidation := router.awaitingValidation ++ [proposal] }
  routing := ⟨.sandboxValidate, false, reason⟩

def holdForApproval (router : ProposalRouter) (proposal : SelfImprovementProposal)
    (reason : String) : Routed where
  router := { router with awaitingApproval := router.awaitingApproval ++ [proposal] }
  routing := ⟨.humanApproval, false, reason⟩

def autoApply (router : ProposalRouter) (call : Invocation) (reason : String) : Routed where
  router
  call := some call
  routing := ⟨.autoApply, true, reason⟩

/-- The call of the knob actuator that a payload asks for. -/
def knobCall (actuators : ProposalActuators) (proposal : SelfImprovementProposal) :
    Option Invocation :=
  if proposal.kind = .knobTune ∧ actuators.applyKnob then
    match proposal.payload.get "knob", proposal.payload.get "value" with
    | some (.text knob), some (.number value) => some (.knob knob value)
    | _, _ => none
  else none

def focusWeightCall (actuators : ProposalActuators) (proposal : SelfImprovementProposal) :
    Option Invocation :=
  if proposal.kind = .focusWeight ∧ actuators.applyFocusWeight then
    match proposal.payload.get "focusId", proposal.payload.get "weight" with
    | some (.text focusId), some (.number weight) => some (.focusWeight focusId weight)
    | _, _ => none
  else none

def schemaEvolutionCall (actuators : ProposalActuators) (proposal : SelfImprovementProposal) :
    Option Invocation :=
  if proposal.kind = .schemaEvolution ∧ actuators.applySchemaPatch then
    match proposal.payload.get "schemaId", proposal.payload.get "mettaProgram",
      proposal.payload.get "sourceDerivationIds" with
    | some (.text schemaId), some (.text program), some (.list ids) =>
      some (.schemaPatch schemaId program (.list ids))
    | _, _, _ => none
  else none

def ruleAdoptionCall (actuators : ProposalActuators) (now : String)
    (proposal : SelfImprovementProposal) : Option Invocation :=
  if proposal.kind = .mettaRuleAdoption ∧ actuators.applySchemaPatch then
    match proposal.payload.get "mettaProgram", proposal.payload.get "sourceDerivationIds" with
    | some (.text program), some (.list ids) =>
      some (.schemaPatch ("metta-rule-" ++ now) program (.list ids))
    | _, _ => none
  else none

/-- Route a proposal of low risk. -/
def routeLow (router : ProposalRouter) (proposal : SelfImprovementProposal) (mode : AutonomyMode)
    (actuators : ProposalActuators) (now : String) : Routed :=
  if !mode.permitsExecution then
    router.holdForApproval proposal ("Mode " ++ mode.text ++ " prohibits auto-apply")
  else
    match focusWeightCall actuators proposal with
    | some call => router.autoApply call "Low-risk focus-weight auto-applied"
    | none =>
      if proposal.kind = .strategySwitch ∧ mode ≠ .sandboxExecute then
        { router
          routing := ⟨.autoApply, false,
            "No actuator registered for strategy-switch; held as approved-pending"⟩ }
      else
        match schemaEvolutionCall actuators proposal with
        | some call => router.autoApply call "Schema evolution patch auto-applied"
        | none =>
          match ruleAdoptionCall actuators now proposal with
          | some call => router.autoApply call "MeTTa rule adoption auto-applied"
          | none =>
            if proposal.kind = .schemaPromotion then
              { router
                routing := ⟨.autoApply, false,
                  "Schema promotion recorded; requires manual adoption"⟩ }
            else
              router.holdForApproval proposal
                ("No actuator for low-risk " ++ proposal.kind.text ++ "; queued for review")

/-- Route a proposal of medium risk, with the verdict of a validator where there is one. -/
def routeMedium (router : ProposalRouter) (proposal : SelfImprovementProposal)
    (mode : AutonomyMode) (actuators : ProposalActuators) (verdict : Option ValidationVerdict) :
    Routed :=
  match verdict with
  | none =>
    router.holdForValidation proposal
      ("Medium-risk " ++ proposal.kind.text ++ " requires sandbox validation")
  | some verdict =>
    let held := router.holdForValidation proposal ("Held: " ++ verdict.reason)
    if verdict.approved && mode.permitsExecution then
      match knobCall actuators proposal with
      | some call => router.autoApply call ("Sandbox-validated: " ++ verdict.reason)
      | none => held
    else held

def route (numberText : JsNumber → String) (router : ProposalRouter)
    (proposal : SelfImprovementProposal) (mode : AutonomyMode) (actuators : ProposalActuators)
    (validated : Bool) (now : String) : Routed :=
  match proposal.riskTier with
  | .high =>
    router.holdForApproval proposal
      ("High-risk " ++ proposal.kind.text ++ " requires human/external approval")
  | .medium =>
    router.routeMedium proposal mode actuators
      (if validated then some (validate numberText proposal) else none)
  | .low => router.routeLow proposal mode actuators now

/-- Route what was held, one after the other, with the calls that are made. A call that throws
ends it, and what is behind is held no more. -/
def routeHeld (numberText : JsNumber → String) (actuators : ProposalActuators) (now : String) :
    ProposalRouter → List SelfImprovementProposal → Nat →
      ProposalRouter × List (SelfImprovementProposal × Invocation) ×
        Option (List (SelfImprovementProposal × Routing))
  | router, [], _ => (router, [], some [])
  | router, proposal :: rest, calls =>
    let routed := router.route numberText proposal .lowRiskAutoMerge actuators true now
    match routed.call with
    | none =>
      let (last, invoked, routings) := routeHeld numberText actuators now routed.router rest calls
      (last, invoked, routings.map ((proposal, routed.routing) :: ·))
    | some call =>
      if actuators.throws calls then (routed.router, [(proposal, call)], none)
      else
        let (last, invoked, routings) :=
          routeHeld numberText actuators now routed.router rest (calls + 1)
        (last, (proposal, call) :: invoked, routings.map ((proposal, routed.routing) :: ·))

def drainAwaitingValidation (numberText : JsNumber → String) (router : ProposalRouter)
    (actuators : ProposalActuators) (now : String) :
    ProposalRouter × List (SelfImprovementProposal × Invocation) ×
      Option (List (SelfImprovementProposal × Routing)) :=
  routeHeld numberText actuators now { router with awaitingValidation := [] }
    router.awaitingValidation 0

end ProposalRouter

/-! ### The resolver -/

structure AdaptationRecord where
  adaptationId : String
  proposal : SelfImprovementProposal
  decision : GovernanceDecision
  applied : Bool
  derivationChain : List String

/-- The resolver, with the mode of its last resolution. -/
structure GovernanceResolver where
  router : ProposalRouter := {}
  adaptations : List AdaptationRecord := []
  derivationChain : List String := []
  inForce : Option AutonomyMode := none

/-- What a resolution needs of the outside: a made id and the text of the time. -/
structure ResolutionInputs where
  adaptationId : String
  now : String

namespace GovernanceResolver

structure Resolution where
  decision : GovernanceDecision
  routing : Routing
  adaptationId : String

/-- Resolve a proposal. Where the actuator throws nothing is recorded. -/
def resolve (numberText : JsNumber → String) (resolver : GovernanceResolver)
    (proposal : SelfImprovementProposal) (mode : AutonomyMode) (actuators : ProposalActuators)
    (inputs : ResolutionInputs) :
    GovernanceResolver × List (SelfImprovementProposal × Invocation) × Option Resolution :=
  let decision := decision (assessRisk proposal) mode
  let routed := resolver.router.route numberText proposal mode actuators true inputs.now
  let invoked := routed.call.toList.map (proposal, ·)
  if routed.call.isSome ∧ actuators.throws 0 then
    ({ resolver with router := routed.router, inForce := some mode }, invoked, none)
  else
    let chain := resolver.derivationChain ++ [inputs.adaptationId]
    let adaptation : AdaptationRecord :=
      { adaptationId := inputs.adaptationId, proposal, decision,
        applied := routed.routing.applied, derivationChain := chain }
    ({ router := routed.router
       adaptations := resolver.adaptations ++ [adaptation]
       derivationChain :=
         if routed.routing.applied ∧ routed.routing.route = .autoApply then chain
         else resolver.derivationChain
       inForce := some mode },
      invoked, some ⟨decision, routed.routing, inputs.adaptationId⟩)

def drainAwaitingValidation (numberText : JsNumber → String) (resolver : GovernanceResolver)
    (actuators : ProposalActuators) (now : String) :
    GovernanceResolver × List (SelfImprovementProposal × Invocation) ×
      Option (List (SelfImprovementProposal × Routing)) :=
  let (router, invoked, routings) :=
    resolver.router.drainAwaitingValidation numberText actuators now
  ({ resolver with router }, invoked, routings)

end GovernanceResolver

/-! ### Runs -/

inductive GovernanceEvent where
  | resolve (proposal : SelfImprovementProposal) (mode : AutonomyMode)
      (actuators : ProposalActuators) (inputs : ResolutionInputs)
  | drainAwaitingValidation (actuators : ProposalActuators) (now : String)

section

variable (numberText : JsNumber → String)

/-- The resolver after an event, and the calls of actuators that were made. -/
def governed (resolver : GovernanceResolver) :
    GovernanceEvent → GovernanceResolver × List (SelfImprovementProposal × Invocation)
  | .resolve proposal mode actuators inputs =>
    let (next, invoked, _) := resolver.resolve numberText proposal mode actuators inputs
    (next, invoked)
  | .drainAwaitingValidation actuators now =>
    let (next, invoked, _) := resolver.drainAwaitingValidation numberText actuators now
    (next, invoked)

def governanceStep : Machine GovernanceResolver GovernanceEvent :=
  fun resolver event => some (governed numberText resolver event).1

/-- No actuator is called while the mode in force does not permit it, and none for a high risk. -/
def Respects (resolver : GovernanceResolver) (event : GovernanceEvent) : Prop :=
  ∀ call ∈ (governed numberText resolver event).2,
    ((governed numberText resolver event).1.inForce.any (·.permitsExecution)) = true ∧
      call.1.riskTier ≠ .high

/-- A held proposal is applied when it is drained. -/
def Applies (actuators : ProposalActuators) (proposal : SelfImprovementProposal) : Prop :=
  (validate numberText proposal).approved = true ∧
    (ProposalRouter.knobCall actuators proposal).isSome

/-- What is drained is drained while the mode in force permits execution, or nothing that is held
is applied. -/
def DrainsInMode (resolver : GovernanceResolver) : GovernanceEvent → Prop
  | .resolve _ _ _ _ => True
  | .drainAwaitingValidation actuators _ =>
    resolver.inForce.any (·.permitsExecution) = true ∨
      ∀ proposal ∈ resolver.router.awaitingValidation, ¬ Applies numberText actuators proposal

/-! ### One proposal -/

namespace ProposalRouter

variable {numberText}

/-- What is held for validation is of medium risk. -/
def HoldsMedium (router : ProposalRouter) : Prop :=
  ∀ proposal ∈ router.awaitingValidation, proposal.riskTier = .medium

theorem routeLow_spec (router : ProposalRouter) (proposal : SelfImprovementProposal)
    (mode : AutonomyMode) (actuators : ProposalActuators) (now : String) :
    (router.routeLow proposal mode actuators now).router.awaitingValidation =
        router.awaitingValidation ∧
      ((router.routeLow proposal mode actuators now).call.isSome →
        mode.permitsExecution = true) := by
  unfold routeLow
  split
  · exact ⟨rfl, fun called => by cases called⟩
  · rename_i permitted
    have permits : mode.permitsExecution = true := by simpa using permitted
    refine ⟨?_, fun _ => permits⟩
    split
    · rfl
    · split
      · rfl
      · split
        · rfl
        · split
          · rfl
          · split <;> rfl

variable {router : ProposalRouter} {proposal : SelfImprovementProposal}

theorem HoldsMedium.hold (holds : HoldsMedium router) (medium : proposal.riskTier = .medium)
    (reason : String) : HoldsMedium (router.holdForValidation proposal reason).router := by
  intro held inHeld
  rcases List.mem_append.mp inHeld with before | new
  · exact holds held before
  · rw [List.mem_singleton.mp new]
    exact medium

theorem HoldsMedium.routeMedium {router proposal} (holds : HoldsMedium router)
    (medium : proposal.riskTier = .medium) (mode : AutonomyMode) (actuators : ProposalActuators)
    (verdict : Option ValidationVerdict) :
    HoldsMedium (router.routeMedium proposal mode actuators verdict).router := by
  unfold ProposalRouter.routeMedium
  split
  · exact holds.hold medium _
  · dsimp only
    split
    · split
      · exact holds
      · exact holds.hold medium _
    · exact holds.hold medium _

variable (numberText) in
theorem HoldsMedium.route {router} (holds : HoldsMedium router)
    (proposal : SelfImprovementProposal) (mode : AutonomyMode) (actuators : ProposalActuators)
    (validated : Bool) (now : String) :
    HoldsMedium (router.route numberText proposal mode actuators validated now).router := by
  unfold ProposalRouter.route
  split
  · exact holds
  · rename_i medium
    exact holds.routeMedium medium mode actuators _
  · intro held inHeld
    rw [(routeLow_spec router proposal mode actuators now).1] at inHeld
    exact holds held inHeld

theorem isSome_call_routeMedium (router : ProposalRouter) (proposal : SelfImprovementProposal)
    (mode : AutonomyMode) (actuators : ProposalActuators) (verdict : ValidationVerdict) :
    (router.routeMedium proposal mode actuators (some verdict)).call.isSome ↔
      (verdict.approved = true ∧ (knobCall actuators proposal).isSome) ∧
        mode.permitsExecution = true := by
  unfold routeMedium
  dsimp only
  split
  · rename_i executable
    obtain ⟨approved, permits⟩ := (Bool.and_eq_true _ _).mp executable
    split
    · rename_i call asked
      simp [autoApply, approved, permits, asked]
    · rename_i asked
      simp [holdForValidation, asked]
  · rename_i refused
    have never : ¬ (verdict.approved = true ∧ mode.permitsExecution = true) :=
      fun both => refused ((Bool.and_eq_true _ _).mpr both)
    simp only [holdForValidation, Option.isSome_none, Bool.false_eq_true, false_iff]
    exact fun both => never ⟨both.1.1, both.2⟩

theorem permits_of_call_route {mode actuators validated now}
    (called : (router.route numberText proposal mode actuators validated now).call.isSome) :
    mode.permitsExecution = true ∧ proposal.riskTier ≠ .high := by
  unfold route at called
  split at called
  · exact absurd called (by simp [holdForApproval])
  · rename_i medium
    refine ⟨?_, by rw [medium]; decide⟩
    cases validated with
    | false => exact absurd called (by simp [routeMedium, holdForValidation])
    | true => exact ((isSome_call_routeMedium router proposal mode actuators _).mp called).2
  · rename_i low
    exact ⟨(routeLow_spec router proposal mode actuators now).2 called, by rw [low]; decide⟩

variable (numberText) in
theorem isSome_call_route_of_held (router : ProposalRouter) (medium : proposal.riskTier = .medium)
    (actuators : ProposalActuators) (now : String) :
    (router.route numberText proposal .lowRiskAutoMerge actuators true now).call.isSome ↔
      Applies numberText actuators proposal := by
  unfold route
  rw [medium]
  show (router.routeMedium proposal .lowRiskAutoMerge actuators
    (some (validate numberText proposal))).call.isSome ↔ _
  rw [isSome_call_routeMedium]
  exact ⟨fun both => both.1, fun applies => ⟨applies, rfl⟩⟩

/-! ### What is held -/

theorem HoldsMedium.routeHeld {router} (holds : HoldsMedium router)
    (actuators : ProposalActuators) (now : String) (held : List SelfImprovementProposal)
    (calls : Nat) : HoldsMedium (routeHeld numberText actuators now router held calls).1 := by
  induction held generalizing router calls with
  | nil => exact holds
  | cons proposal rest ih =>
    have next := holds.route numberText proposal .lowRiskAutoMerge actuators true now
    unfold ProposalRouter.routeHeld
    dsimp only
    split
    · exact ih next calls
    · split
      · exact next
      · exact ih next (calls + 1)

variable (numberText) in
theorem routeHeld_calls_eq_nil (router : ProposalRouter) (actuators : ProposalActuators)
    (now : String) (held : List SelfImprovementProposal)
    (medium : ∀ proposal ∈ held, proposal.riskTier = .medium) (calls : Nat) :
    (routeHeld numberText actuators now router held calls).2.1 = [] ↔
      ∀ proposal ∈ held, ¬ Applies numberText actuators proposal := by
  induction held generalizing router calls with
  | nil => simp [routeHeld]
  | cons proposal rest ih =>
    have called := isSome_call_route_of_held numberText router
      (medium proposal (List.mem_cons_self ..)) actuators now
    have later := fun next calls => ih next
      (fun other inRest => medium other (List.mem_cons_of_mem _ inRest)) calls
    unfold routeHeld
    dsimp only
    rw [List.forall_mem_cons, ← called]
    split
    · rename_i none
      rw [none]
      simpa using later _ calls
    · rename_i call some
      rw [some]
      split <;> simp

theorem risk_of_mem_routeHeld (actuators : ProposalActuators) (now : String)
    (held : List SelfImprovementProposal) (calls : Nat) :
    ∀ call ∈ (routeHeld numberText actuators now router held calls).2.1,
      call.1.riskTier ≠ .high := by
  induction held generalizing router calls with
  | nil => simp [routeHeld]
  | cons proposal rest ih =>
    intro call
    unfold routeHeld
    dsimp only
    split
    · exact ih calls call
    · rename_i made asked
      have notHigh : proposal.riskTier ≠ .high :=
        (permits_of_call_route (by rw [asked]; rfl)).2
      split
      · intro only
        rw [List.mem_singleton.mp only]
        exact notHigh
      · intro among
        rcases List.mem_cons.mp among with first | later
        · rw [first]
          exact notHigh
        · exact ih (calls + 1) call later

end ProposalRouter

/-! ### One event -/

open ProposalRouter

variable {numberText}

theorem HoldsMedium.governed {resolver} (holds : HoldsMedium resolver.router)
    (event : GovernanceEvent) : HoldsMedium (governed numberText resolver event).1.router := by
  cases event with
  | resolve proposal mode actuators inputs =>
    have next := holds.route numberText proposal mode actuators true inputs.now
    unfold Governance.governed GovernanceResolver.resolve
    dsimp only
    split <;> exact next
  | drainAwaitingValidation actuators now =>
    have none : HoldsMedium { resolver.router with awaitingValidation := [] } :=
      fun _ inNone => absurd inNone List.not_mem_nil
    exact none.routeHeld actuators now resolver.router.awaitingValidation 0

theorem respects_resolve (resolver : GovernanceResolver) (proposal : SelfImprovementProposal)
    (mode : AutonomyMode) (actuators : ProposalActuators) (inputs : ResolutionInputs) :
    Respects numberText resolver (.resolve proposal mode actuators inputs) := by
  have inForce : (governed numberText resolver
      (.resolve proposal mode actuators inputs)).1.inForce = some mode := by
    unfold governed GovernanceResolver.resolve
    dsimp only
    split <;> rfl
  have invoked : (governed numberText resolver (.resolve proposal mode actuators inputs)).2 =
      (resolver.router.route numberText proposal mode actuators true
        inputs.now).call.toList.map (proposal, ·) := by
    unfold governed GovernanceResolver.resolve
    dsimp only
    split <;> rfl
  intro call made
  rw [invoked] at made
  obtain ⟨called, asked, rfl⟩ := List.mem_map.mp made
  obtain ⟨permits, notHigh⟩ := permits_of_call_route
    (Option.isSome_iff_exists.mpr ⟨called, Option.mem_toList.mp asked⟩)
  rw [inForce]
  exact ⟨permits, notHigh⟩

theorem respects_drain_iff {resolver} (holds : HoldsMedium resolver.router)
    (actuators : ProposalActuators) (now : String) :
    Respects numberText resolver (.drainAwaitingValidation actuators now) ↔
      DrainsInMode numberText resolver (.drainAwaitingValidation actuators now) := by
  have calls : (governed numberText resolver (.drainAwaitingValidation actuators now)).2 = [] ↔ _ :=
    routeHeld_calls_eq_nil numberText { resolver.router with awaitingValidation := [] } actuators
      now resolver.router.awaitingValidation holds 0
  constructor
  · intro respects
    by_cases applied : ∀ proposal ∈ resolver.router.awaitingValidation,
        ¬ Applies numberText actuators proposal
    · exact .inr applied
    · have some := mt calls.mp applied
      obtain ⟨call, made⟩ := List.exists_mem_of_ne_nil _ some
      exact .inl (respects call made).1
  · rintro (permits | none) call made
    · exact ⟨permits, risk_of_mem_routeHeld actuators now _ 0 call made⟩
    · have nil := calls.mpr none
      exact absurd (nil ▸ made) List.not_mem_nil

theorem respects_iff_drainsInMode {resolver} (holds : HoldsMedium resolver.router)
    (event : GovernanceEvent) :
    Respects numberText resolver event ↔ DrainsInMode numberText resolver event := by
  cases event with
  | resolve proposal mode actuators inputs =>
    exact ⟨fun _ => trivial, fun _ => respects_resolve resolver proposal mode actuators inputs⟩
  | drainAwaitingValidation actuators now => exact respects_drain_iff holds actuators now

/-! ### All events -/

theorem holdsMedium_new : HoldsMedium ({} : GovernanceResolver).router :=
  fun _ inNone => absurd inNone List.not_mem_nil

/-- No actuator is ever called against the mode in force or for a high risk exactly where whatever
is drained is drained while that mode permits execution, or is not applied. -/
theorem GovernanceResolver.respects_iff (events : List GovernanceEvent) :
    Run.Meets (governanceStep numberText) (Respects numberText) {} events ↔
      Run.Meets (governanceStep numberText) (DrainsInMode numberText) {} events := by
  refine Run.meets_iff (fun _ event _ medium _ => respects_iff_drainsInMode medium event) ?_
    holdsMedium_new
  intro resolver event next medium taken _
  cases Option.some.inj taken
  exact HoldsMedium.governed medium event

/-- A knob that is turned within its range. -/
def loopsTuning : SelfImprovementProposal where
  proposalId := "proposal-1"
  kind := .knobTune
  riskTier := .medium
  payload := OrderedMap.ofList [("knob", .text "maxLoops"), ("value", .number 3)]

/-- What is held while nothing may be executed is applied as soon as it is drained. -/
theorem drain_against_mode : ¬ ∀ (numberText : JsNumber → String) (events : List GovernanceEvent),
    Run.Meets (governanceStep numberText) (Respects numberText) {} events := by
  intro always
  have resolved : Run (governanceStep fun _ => "") {}
      [.resolve loopsTuning .observeOnly { applyKnob := true } ⟨"adaptation-1", "0"⟩] _ :=
    run_of_execute rfl
  have respects := always (fun _ => "")
    [.resolve loopsTuning .observeOnly { applyKnob := true } ⟨"adaptation-1", "0"⟩,
      .drainAwaitingValidation { applyKnob := true } "1"]
  have respected := respects.at_event resolved
  rcases (respects_iff_drainsInMode (HoldsMedium.governed holdsMedium_new _) _).mp respected with
    permits | nothing
  · exact absurd permits (by decide)
  · exact nothing loopsTuning (List.mem_singleton.mpr rfl) ⟨by decide +kernel, by decide +kernel⟩

end

end Senars.Governance
