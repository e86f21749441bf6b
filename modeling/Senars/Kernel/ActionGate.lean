/-
This file is the kernel action gate: whether an operation may run. An operation
named `game:<scope>:<action>` is judged by the mode and the allow-list of its
scope, any other by the gate's own mode, by the derivation it names and by the
gate's own allow-list. A derivation may be registered as a veto.

The three guarantees of the gate are that a vetoed operation is refused, that an
authorized one runs in a mode that permits it and is on the list it is judged by,
and that a refusal records one policy violation. The path of the scopes looks at
no derivation and records nothing, so it keeps the guarantees where it authorizes
an operation that no veto is named for, and there only.
-/

import Senars.Kernel.Gate
import Senars.Library.Runs
import Senars.Unify.LruCache

namespace Senars.Kernel

open Library
open Unify (LruCache)

/-! ### Autonomy modes -/

inductive AutonomyMode where
  | observeOnly | proposeOnly | sandboxExecute | lowRiskAutoMerge | humanApprovedProduction
  deriving DecidableEq

inductive AutonomyAuthority where
  | system | human | externalGovernance
  deriving DecidableEq

namespace AutonomyMode

def text : AutonomyMode → String
  | observeOnly => "observe-only"
  | proposeOnly => "propose-only"
  | sandboxExecute => "sandbox-execute"
  | lowRiskAutoMerge => "low-risk-auto-merge"
  | humanApprovedProduction => "human-approved-production"

/-- The place of a mode among the modes. -/
def order : AutonomyMode → Nat
  | observeOnly => 0
  | proposeOnly => 1
  | sandboxExecute => 2
  | lowRiskAutoMerge => 3
  | humanApprovedProduction => 4

def legalTransitions : AutonomyMode → List AutonomyMode
  | observeOnly => [proposeOnly]
  | proposeOnly => [observeOnly, sandboxExecute]
  | sandboxExecute => [proposeOnly, lowRiskAutoMerge]
  | lowRiskAutoMerge => [sandboxExecute, humanApprovedProduction]
  | humanApprovedProduction => [lowRiskAutoMerge]

def permitsExecution (mode : AutonomyMode) : Bool := mode != observeOnly && mode != proposeOnly

end AutonomyMode

/-! ### The gate -/

structure AutonomyModeChanged where
  previousMode : AutonomyMode
  newMode : AutonomyMode
  authorizedBy : AutonomyAuthority
  correlationId : String
  deriving DecidableEq

/-- A registered derivation. -/
structure NALConclusion where
  conclusion : String
  veto : Bool
  deriving DecidableEq

/-- The name of a derivation in a request, which is not the empty text. -/
structure DerivationId where
  id : String
  nonempty : id ≠ ""

structure ActionGateInput where
  operation : String
  nalDerivationId : Option DerivationId
  correlationId : Option String

structure ActionGateOutput where
  authorized : Bool
  toolCallId : Option String
  vetoReason : Option String
  requiredApprovals : List String
  deriving DecidableEq

/-- A refusal, with its reason. -/
def veto (vetoReason : String) : ActionGateOutput where
  authorized := false
  toolCallId := none
  vetoReason := some vetoReason
  requiredApprovals := ["human-approval"]

/-- The fresh names a call may need. -/
structure MadeIds where
  correlation : String
  toolCall : String

def authorization (ids : MadeIds) : ActionGateOutput where
  authorized := true
  toolCallId := some ids.toolCall
  vetoReason := none
  requiredApprovals := []

structure KernelActionGateConfig where
  autonomyMode : AutonomyMode := .observeOnly
  allowedOperations : List String := []

structure KernelActionGate where
  autonomyLog : List AutonomyModeChanged
  autonomyMode : AutonomyMode
  allowedOperations : List String
  nalDerivations : LruCache NALConclusion
  scopeModes : OrderedMap String AutonomyMode
  scopeOperations : OrderedMap String (List String)
  eventLog : List PolicyViolation

namespace KernelActionGate

def new (config : KernelActionGateConfig) : KernelActionGate where
  autonomyLog := []
  autonomyMode := config.autonomyMode
  allowedOperations := config.allowedOperations
  nalDerivations := LruCache.new gateLogCapacity
  scopeModes := .empty
  scopeOperations := .empty
  eventLog := []

/-- What a request for another mode comes to. -/
structure ModeChange where
  changed : Bool
  reason : Option String

def requestModeChange (gate : KernelActionGate) (newMode : AutonomyMode)
    (authorizedBy : AutonomyAuthority) (correlationId : String) : ModeChange × KernelActionGate :=
  let prev := gate.autonomyMode
  if prev = newMode then (⟨true, none⟩, gate)
  else if newMode ∉ prev.legalTransitions then
    (⟨false, some ("Illegal transition " ++ prev.text ++ " -> " ++ newMode.text)⟩, gate)
  else
    let upgrading := decide (prev.order < newMode.order)
    let beyondSandbox := decide (AutonomyMode.sandboxExecute.order < newMode.order)
    if upgrading && beyondSandbox && authorizedBy = .system then
      (⟨false, some
        "Escalation beyond sandbox-execute requires human or external-governance approval"⟩, gate)
    else
      (⟨true, none⟩,
        { gate with
          autonomyMode := newMode
          autonomyLog := pushCapped gate.autonomyLog ⟨prev, newMode, authorizedBy, correlationId⟩
            gateLogCapacity })

/-- Split `game:<scope>:<action>`. A text with no scope is not one. -/
def parseScopedOperation (operation : String) : Option (String × String) :=
  if "game:".toList.isPrefixOf operation.toList then
    let rest := operation.toList.drop "game:".length
    match rest.idxOf? ':' with
    | none | some 0 => none
    | some sep => some (.ofList (rest.take sep), .ofList (rest.drop (sep + 1)))
  else none

/-- What the gate decides of a request: the answer, the violations it records and the
derivations, whose order a look at one of them changes. -/
structure Decision where
  output : ActionGateOutput
  violations : List PolicyViolation
  nalDerivations : LruCache NALConclusion

def authorizeScoped (gate : KernelActionGate) (scopeId action : String) (ids : MadeIds) :
    ActionGateOutput :=
  match gate.scopeModes.get scopeId with
  | none => veto ("Unknown scope " ++ scopeId)
  | some mode =>
    if !mode.permitsExecution then
      veto ("Autonomy mode " ++ mode.text ++ " does not permit execution (scope " ++ scopeId ++ ")")
    else if action ∉ (gate.scopeOperations.get scopeId).getD [] then
      veto ("Operation '" ++ action ++ "' not permitted in scope " ++ scopeId)
    else authorization ids

/-- A violation of a policy of the gate. -/
def policyViolation (policyId detail correlationId : String) : PolicyViolation :=
  recordPolicyViolation policyId "unauthorized-tool" detail correlationId

def decideAuthorization (gate : KernelActionGate) (input : ActionGateInput) (ids : MadeIds) :
    Decision :=
  match parseScopedOperation input.operation with
  | some (scopeId, action) => ⟨gate.authorizeScoped scopeId action ids, [], gate.nalDerivations⟩
  | none =>
    let correlation := input.correlationId.getD ids.correlation
    if !gate.autonomyMode.permitsExecution then
      ⟨veto ("Autonomy mode " ++ gate.autonomyMode.text ++ " does not permit tool execution"),
        [policyViolation "autonomy-mode"
          ("Action not permitted in " ++ gate.autonomyMode.text ++ " mode") correlation],
        gate.nalDerivations⟩
    else
      let (derivation, nalDerivations) :=
        match input.nalDerivationId with
        | none => (none, gate.nalDerivations)
        | some named => gate.nalDerivations.get named.id
      match derivation.filter (·.veto) with
      | some vetoing =>
        ⟨veto ("NAL veto: " ++ vetoing.conclusion),
          [policyViolation "nal-veto"
            ("NAL derivation " ++ (input.nalDerivationId.map (·.id)).getD "" ++
              " vetoes action: " ++ vetoing.conclusion) correlation],
          nalDerivations⟩
      | none =>
        if input.operation ∉ gate.allowedOperations then
          ⟨veto ("Operation '" ++ input.operation ++ "' not permitted"),
            [policyViolation "allowed-operations"
              ("Operation '" ++ input.operation ++ "' not in allowed operations list")
              correlation],
            nalDerivations⟩
        else ⟨authorization ids, [], nalDerivations⟩

/-- The gate once a decision is made: each violation is in the log. -/
def afterDecision (gate : KernelActionGate) (decision : Decision) : KernelActionGate :=
  { gate with
    nalDerivations := decision.nalDerivations
    eventLog := decision.violations.foldl (pushCapped · · gateLogCapacity) gate.eventLog }

def authorize (gate : KernelActionGate) (input : ActionGateInput) (ids : MadeIds) :
    ActionGateOutput × KernelActionGate :=
  let decision := gate.decideAuthorization input ids
  (decision.output, gate.afterDecision decision)

end KernelActionGate

/-! ### Runs of the gate -/

/-- What may be done to the gate. -/
inductive GateEvent where
  | setAutonomyMode (mode : AutonomyMode)
  | requestModeChange (newMode : AutonomyMode) (authorizedBy : AutonomyAuthority)
      (correlationId : String)
  | restoreAutonomyEvent (event : AutonomyModeChanged)
  | setScopeAutonomy (scopeId : String) (mode : AutonomyMode)
  | addScopedOperation (scopeId operation : String)
  | removeScope (scopeId : String)
  | registerNALDerivation (derivationId conclusion : String) (veto : Bool)
  | authorize (input : ActionGateInput) (ids : MadeIds)
  | addAllowedOperation (operation : String)
  | removeAllowedOperation (operation : String)
  | restoreEvent (event : PolicyViolation)
  | clearEventLog

namespace KernelActionGate

def step (gate : KernelActionGate) : GateEvent → KernelActionGate
  | .setAutonomyMode mode => { gate with autonomyMode := mode }
  | .requestModeChange newMode authorizedBy correlationId =>
    (gate.requestModeChange newMode authorizedBy correlationId).2
  | .restoreAutonomyEvent event =>
    { gate with autonomyLog := pushCapped gate.autonomyLog event gateLogCapacity }
  | .setScopeAutonomy scopeId mode =>
    { gate with scopeModes := gate.scopeModes.set scopeId mode }
  | .addScopedOperation scopeId operation =>
    { gate with
      scopeOperations := gate.scopeOperations.set scopeId
        (addMember ((gate.scopeOperations.get scopeId).getD []) operation) }
  | .removeScope scopeId =>
    { gate with
      scopeModes := gate.scopeModes.delete scopeId
      scopeOperations := gate.scopeOperations.delete scopeId }
  | .registerNALDerivation derivationId conclusion veto =>
    { gate with nalDerivations := gate.nalDerivations.set derivationId ⟨conclusion, veto⟩ }
  | .authorize input ids => (gate.authorize input ids).2
  | .addAllowedOperation operation =>
    { gate with allowedOperations := addMember gate.allowedOperations operation }
  | .removeAllowedOperation operation =>
    { gate with allowedOperations := gate.allowedOperations.filter (· ≠ operation) }
  | .restoreEvent event =>
    { gate with eventLog := pushCapped gate.eventLog event gateLogCapacity }
  | .clearEventLog => { gate with eventLog := [], autonomyLog := [] }

/-- The gate as a machine: everything may be done at any time. -/
def machine : Machine KernelActionGate GateEvent := fun gate event => some (gate.step event)

/-! ### What is registered -/

/-- What an event registers under a name. -/
def registration (derivationId : String) : GateEvent → Option NALConclusion
  | .registerNALDerivation registered conclusion veto =>
    if registered = derivationId then some ⟨conclusion, veto⟩ else none
  | _ => none

/-- The last derivation registered under a name. -/
def lastRegistered (history : List GateEvent) (derivationId : String) : Option NALConclusion :=
  history.foldl (fun found event => (registration derivationId event).or found) none

theorem lastRegistered_append (history : List GateEvent) (event : GateEvent)
    (derivationId : String) :
    lastRegistered (history ++ [event]) derivationId =
      (registration derivationId event).or (lastRegistered history derivationId) := by
  rw [lastRegistered, List.foldl_append]
  rfl

/-- Every derivation the gate retains is the last one registered under its name. -/
def Recalls (history : List GateEvent) (gate : KernelActionGate) : Prop :=
  ∀ derivationId derivation, gate.nalDerivations.Holds derivationId derivation →
    lastRegistered history derivationId = some derivation

variable {gate : KernelActionGate}

theorem holds_decideAuthorization {input ids derivationId derivation} :
    (gate.decideAuthorization input ids).nalDerivations.Holds derivationId derivation ↔
      gate.nalDerivations.Holds derivationId derivation := by
  unfold decideAuthorization
  split
  · exact Iff.rfl
  · dsimp only
    split
    · exact Iff.rfl
    · cases input.nalDerivationId with
      | none =>
        dsimp only [Option.filter_none]
        split <;> exact Iff.rfl
      | some named =>
        split
        · exact LruCache.holds_get
        · split <;> exact LruCache.holds_get

theorem recalls_step {history} (recalls : Recalls history gate) (event : GateEvent) :
    Recalls (history ++ [event]) (gate.step event) := by
  intro derivationId derivation holds
  rw [lastRegistered_append]
  cases event with
  | registerNALDerivation registered conclusion veto =>
    rw [registration]
    by_cases same : registered = derivationId
    · subst same
      rw [if_pos rfl]
      exact (LruCache.holds_set_self _ _ _).symm.trans holds
    · rw [if_neg same]
      rcases LruCache.holds_set holds with ⟨named, _⟩ | before
      · exact absurd named.symm same
      · exact recalls derivationId derivation before
  | authorize input ids =>
    exact recalls derivationId derivation (holds_decideAuthorization.mp holds)
  | requestModeChange newMode authorizedBy correlationId =>
    refine recalls derivationId derivation ?_
    unfold step requestModeChange at holds
    dsimp only at holds
    split at holds
    · exact holds
    · split at holds
      · exact holds
      · split at holds <;> exact holds
  | _ => exact recalls derivationId derivation holds

theorem recalls_run {earlier events first last} (run : Run machine first events last)
    (recalls : Recalls earlier first) : Recalls (earlier ++ events) last := by
  induction run generalizing earlier with
  | nil => rwa [List.append_nil]
  | @cons first second last event events taken _ ih =>
    cases taken
    rw [List.append_cons]
    exact ih (recalls_step recalls event)

theorem recalls_new (config : KernelActionGateConfig) : Recalls [] (new config) :=
  fun _ _ holds => absurd holds (LruCache.not_holds_new _ _ _)

/-! ### The guarantees -/

/-- The mode that governs an operation, where there is one. -/
def governingMode (gate : KernelActionGate) (operation : String) : Option AutonomyMode :=
  match parseScopedOperation operation with
  | some (scopeId, _) => gate.scopeModes.get scopeId
  | none => some gate.autonomyMode

/-- The operation is on the allow-list that governs it. -/
def Listed (gate : KernelActionGate) (operation : String) : Prop :=
  match parseScopedOperation operation with
  | some (scopeId, action) => action ∈ (gate.scopeOperations.get scopeId).getD []
  | none => operation ∈ gate.allowedOperations

/-- The mode and the allow-list that govern an operation let it run. -/
def Permits (gate : KernelActionGate) (operation : String) : Prop :=
  (∃ mode, gate.governingMode operation = some mode ∧ mode.permitsExecution = true) ∧
    gate.Listed operation

/-- A request names a derivation that the gate retains and that was last registered as a veto. -/
def VetoNamed (history : List GateEvent) (gate : KernelActionGate) (input : ActionGateInput) :
    Prop :=
  ∃ named derivation, input.nalDerivationId = some named ∧
    (∃ retained, gate.nalDerivations.Holds named.id retained) ∧
    lastRegistered history named.id = some derivation ∧ derivation.veto = true

/-- What the gate promises of a request: a vetoed operation is refused, an authorized one may
run, and a refusal records exactly one violation. -/
structure Guarded (history : List GateEvent) (gate : KernelActionGate) (input : ActionGateInput)
    (ids : MadeIds) : Prop where
  vetoed : VetoNamed history gate input → (gate.authorize input ids).1.authorized = false
  permitted : (gate.authorize input ids).1.authorized = true → gate.Permits input.operation
  recorded : (gate.authorize input ids).1.authorized = false →
    ∃ violation, (gate.decideAuthorization input ids).violations = [violation] ∧
      (gate.authorize input ids).2.eventLog = pushCapped gate.eventLog violation gateLogCapacity

/-- Where the path of the scopes has nothing to miss: no veto is named, and it authorizes. -/
def Covered (history : List GateEvent) (gate : KernelActionGate) (input : ActionGateInput) : Prop :=
  parseScopedOperation input.operation = none ∨
    ¬ VetoNamed history gate input ∧ gate.Permits input.operation

theorem authorizeScoped_authorized {operation scopeId action}
    (parsed : parseScopedOperation operation = some (scopeId, action)) (ids : MadeIds) :
    (gate.authorizeScoped scopeId action ids).authorized = true ↔ gate.Permits operation := by
  unfold authorizeScoped Permits governingMode Listed
  rw [parsed]
  dsimp only
  cases found : gate.scopeModes.get scopeId with
  | none => simp [veto]
  | some mode =>
    dsimp only
    cases permitted : mode.permitsExecution with
    | false => simp [veto, permitted]
    | true =>
      by_cases listed : action ∈ (gate.scopeOperations.get scopeId).getD []
      · simp [authorization, permitted, listed]
      · simp [veto, listed]

theorem decideAuthorization_unscoped (gate : KernelActionGate) {input}
    (parsed : parseScopedOperation input.operation = none) (ids : MadeIds) :
    let decision := gate.decideAuthorization input ids
    (decision.output.authorized = false ∧ ∃ violation, decision.violations = [violation]) ∨
      decision.output.authorized = true ∧ gate.Permits input.operation ∧
        ∀ named derivation, input.nalDerivationId = some named →
          gate.nalDerivations.Holds named.id derivation → derivation.veto = false := by
  unfold decideAuthorization
  rw [parsed]
  dsimp only
  split
  · exact Or.inl ⟨rfl, _, rfl⟩
  rename_i executing
  split
  · exact Or.inl ⟨rfl, _, rfl⟩
  rename_i unvetoed
  split
  · exact Or.inl ⟨rfl, _, rfl⟩
  rename_i listed
  refine Or.inr ⟨rfl, ⟨⟨gate.autonomyMode, ?_, ?_⟩, ?_⟩, ?_⟩
  · rw [governingMode, parsed]
  · simpa using executing
  · rw [Listed, parsed]
    exact not_not.mp listed
  · intro named derivation names holds
    rw [names] at unvetoed
    rw [LruCache.get_fst,
      show gate.nalDerivations.entries.get named.id = some derivation from holds,
      Option.filter_some] at unvetoed
    cases vetoing : derivation.veto with
    | false => rfl
    | true =>
      rw [vetoing] at unvetoed
      cases unvetoed

/-- Over a run, the gate keeps its promises of a request exactly where the path of the scopes has
nothing to miss. -/
theorem guarded_iff_covered {config : KernelActionGateConfig} {history : List GateEvent}
    {gate : KernelActionGate} (run : Run machine (new config) history gate)
    (input : ActionGateInput) (ids : MadeIds) :
    Guarded history gate input ids ↔ Covered history gate input := by
  have recalls : Recalls history gate := recalls_run run (recalls_new config)
  cases parsed : parseScopedOperation input.operation with
  | none =>
    refine iff_of_true ?_ (Or.inl parsed)
    rcases decideAuthorization_unscoped gate parsed ids with
      ⟨refused, violation, recorded⟩ | ⟨authorized, permits, free⟩
    · refine ⟨fun _ => refused, fun authorized => ?_, fun _ => ⟨violation, recorded, ?_⟩⟩
      · exact absurd (authorized.symm.trans refused) (by simp)
      · simp only [authorize, afterDecision, recorded, List.foldl_cons, List.foldl_nil]
    · refine ⟨?_, fun _ => permits, fun refused => ?_⟩
      · rintro ⟨named, derivation, names, ⟨retained, holds⟩, last, vetoing⟩
        have same : retained = derivation :=
          Option.some.inj ((recalls _ _ holds).symm.trans last)
        exact absurd (vetoing.symm.trans (same ▸ free named retained names holds)) (by simp)
      · exact absurd (authorized.symm.trans refused) (by simp)
  | some named =>
    obtain ⟨scopeId, action⟩ := named
    have decided : gate.decideAuthorization input ids =
        ⟨gate.authorizeScoped scopeId action ids, [], gate.nalDerivations⟩ := by
      rw [decideAuthorization, parsed]
    have authorized : (gate.authorize input ids).1.authorized = true ↔
        gate.Permits input.operation := by
      rw [authorize, decided]
      exact authorizeScoped_authorized parsed ids
    constructor
    · intro guarded
      cases answer : (gate.authorize input ids).1.authorized with
      | false =>
        -- a refusal of this path records nothing
        obtain ⟨violation, recorded, _⟩ := guarded.recorded answer
        rw [decided] at recorded
        cases recorded
      | true =>
        refine Or.inr ⟨fun vetoNamed => ?_, guarded.permitted answer⟩
        exact absurd (answer.symm.trans (guarded.vetoed vetoNamed)) (by simp)
    · rintro (unscoped | ⟨free, permits⟩)
      · rw [parsed] at unscoped
        cases unscoped
      · refine ⟨fun vetoNamed => absurd vetoNamed free, fun _ => permits, fun refused => ?_⟩
        exact absurd ((authorized.mpr permits).symm.trans refused) (by simp)

/-! ### A veto the scopes miss -/

/-- A scope that may run, and then a veto. -/
def vetoedScope : List GateEvent :=
  [.setScopeAutonomy "focus" .sandboxExecute, .addScopedOperation "focus" "up",
    .registerNALDerivation "trap" "up leads into the pit" true]

def vetoedRequest : ActionGateInput where
  operation := "game:focus:up"
  nalDerivationId := some ⟨"trap", by decide⟩
  correlationId := none

theorem guarded_iff_covered_vetoed :
    Guarded vetoedScope (vetoedScope.foldl step (new {})) vetoedRequest ⟨"correlation", "call"⟩ ↔
      Covered vetoedScope (vetoedScope.foldl step (new {})) vetoedRequest :=
  guarded_iff_covered (run_of_execute rfl) vetoedRequest ⟨"correlation", "call"⟩

/-- The operation that a retained veto is named for is authorized in its scope. -/
theorem scoped_veto_missed :
    ¬ ∀ (config : KernelActionGateConfig) (history : List GateEvent) (gate : KernelActionGate),
      Run machine (new config) history gate →
        ∀ (input : ActionGateInput) (ids : MadeIds), Guarded history gate input ids := by
  intro always
  have guarded := always {} vetoedScope (vetoedScope.foldl step (new {})) (run_of_execute rfl)
    vetoedRequest ⟨"correlation", "call"⟩
  have retained : (vetoedScope.foldl step (new {})).nalDerivations.entries.get "trap" =
      some ⟨"up leads into the pit", true⟩ := by
    decide +kernel
  have refused := guarded.vetoed
    ⟨_, ⟨"up leads into the pit", true⟩, rfl, ⟨_, retained⟩, by decide +kernel, rfl⟩
  revert refused
  decide +kernel

end KernelActionGate

end Senars.Kernel
