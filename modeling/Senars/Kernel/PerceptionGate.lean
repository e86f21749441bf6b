/-
This file is the kernel perception gate: what of an observation is admitted as a
task, and with which truth. A belief carries the trust ceiling of its source,
which the source's quality, its track record and the sensor's confidence give, or
what the judge of the gate says of it, where one is enabled.

A track record reaches the gate when it is built or later. The constructor does
not keep the one it is given, and what the judge says is taken as it is. A belief
is within the ceiling of its source where neither matters.

The parser of the observations, the text of a term, the host of an address and the
text of an observation that is not one are parameters, and a track record is known
to the gate by its name, since its table goes on changing.
-/

import Senars.Kernel.Gate
import Senars.Kernel.SourceReputation
import Senars.Library.Runs
import Senars.Library.Text

namespace Senars.Kernel

open Library Library.JsNumber Senars.Algebra

inductive StimulusSource where
  | user | llm | derivation | reflex | sensor
  deriving DecidableEq

structure Budget where
  priority : JsNumber
  durability : JsNumber
  quality : JsNumber
  cycles : JsNumber
  depth : JsNumber
  deriving DecidableEq

/-! ### Admitted tasks -/

/-- The payload of a `task.admitted` event. -/
structure TaskAdmitted where
  taskId : String
  term : String
  taskType : TaskType
  truth : Option BeliefTruth
  source : StimulusSource
  budget : Budget
  deriving DecidableEq

def nonNegativeInt (number : JsNumber) : Bool := isSafeInteger number && lessEq 0 number

def Budget.valid (budget : Budget) : Bool :=
  unitInterval budget.priority && unitInterval budget.durability && unitInterval budget.quality &&
    nonNegativeInt budget.cycles && nonNegativeInt budget.depth

/-- The schema the event of an admitted task is checked against. -/
def TaskAdmitted.valid (task : TaskAdmitted) : Bool :=
  task.truth.all BeliefTruth.valid && task.budget.valid

inductive PerceptionEvent where
  | taskAdmitted (task : TaskAdmitted) (correlationId : String)
  | policyViolation (violation : PolicyViolation)
  deriving DecidableEq

structure PerceptionGateOutput where
  admitted : Bool
  task : Option TaskAdmitted
  rejectionReason : Option String
  deriving DecidableEq

def rejection (reason : String) : PerceptionGateOutput where
  admitted := false
  task := none
  rejectionReason := some reason

/-! ### The judge -/

structure IngressJudgmentRequest where
  rawObservation : String
  sourceQuality : SourceQuality
  baseConfidence : JsNumber
  taskType : TaskType

structure IngressVerdict where
  vetoReason : Option String
  taskType : Option TaskType
  ambiguityFlag : Bool
  confidence : JsNumber
  truth : TermTruth

/-- What comes of asking the judge: an answer, a fault, or none before the deadline. -/
inductive Judgment where
  | verdict (verdict : IngressVerdict)
  | error (message : String)
  | timeout

abbrev IngressJudge := IngressJudgmentRequest → Judgment

structure SystemOneConfig where
  enabled : Bool := false
  judge : Option IngressJudge := none
  judgeTimeoutMs : Option JsNumber := none

/-! ### The gate -/

/-- The name of a track record. -/
abbrev ReputationName := Nat

structure KernelPerceptionGateConfig where
  defaultBudget : Option Budget := none
  systemOne : Option SystemOneConfig := none
  reputation : Option ReputationName := none

/-- The settings of a gate, its log, and the drives it has stimulated, where a manager of the
drives is wired. -/
structure KernelPerceptionGate where
  defaultBudget : Budget
  systemOne : SystemOneConfig
  reputation : Option ReputationName
  judge : Option IngressJudge
  driveManager : Option (List (String × JsNumber))
  eventLog : List PerceptionEvent

/-- An observation: a text, or an object, which may have a text named `term`, may be a term
itself, and may declare its type; anything else is neither. -/
inductive Observation (Term : Type) where
  | text (text : String)
  | object (term : Option String) (itself : Option Term) (type : Option String)
  | other

structure PerceptionGateInput (Term : Type) where
  sourceId : String
  source : Option StimulusSource
  rawObservation : Observation Term
  sensorConfidence : JsNumber
  sourceQuality : SourceQuality
  correlationId : Option String

/-- The fresh names a call may need. -/
structure MadeTaskIds where
  correlation : String
  task : String

/-- Code the gate calls. -/
structure PerceptionCalls (Term : Type) where
  parseTaskTolerant : String → Option (Term × TaskType)
  termText : Term → String
  jsonText : Observation Term → String
  urlHost : String → Option String
  numberText : JsNumber → String

namespace KernelPerceptionGate

/-- The constructor keeps the budget and the settings of the judge, and no other setting. -/
def new (config : KernelPerceptionGateConfig) : KernelPerceptionGate :=
  let systemOne := config.systemOne.getD {}
  { defaultBudget := config.defaultBudget.getD
      ⟨.finite (1 / 2), .finite (8 / 10), .finite (9 / 10), 10, 5⟩
    systemOne
    reputation := none
    judge := if systemOne.enabled then systemOne.judge else none
    driveManager := none
    eventLog := [] }

def setReputation (gate : KernelPerceptionGate) (reputation : ReputationName) :
    KernelPerceptionGate := { gate with reputation := some reputation }

/-- Wire a manager of the drives. -/
def setDriveManager (gate : KernelPerceptionGate) : KernelPerceptionGate :=
  { gate with driveManager := some [] }

def stimulate (gate : KernelPerceptionGate) (driveId : String) (amount : JsNumber) :
    KernelPerceptionGate :=
  { gate with driveManager := gate.driveManager.map (· ++ [(driveId, amount)]) }

def emitEvent (gate : KernelPerceptionGate) (event : PerceptionEvent) : KernelPerceptionGate :=
  { gate with eventLog := pushCapped gate.eventLog event gateLogCapacity }

section

variable {Term : Type} (calls : PerceptionCalls Term) (tables : ReputationName → SourceReputation)

/-- The first address in a text, up to its host: `/https?:\\/\\/[^\\s/]+/i`. -/
def findAddress : List Char → Option String
  | [] => none
  | chars@(_ :: rest) =>
    let scheme := ["https://", "http://"].find? fun scheme =>
      scheme.toList.isPrefixOf ((chars.take scheme.length).map Char.toLower)
    let host := fun scheme : String =>
      (chars.drop scheme.length).takeWhile fun char => !isTrimmed char && char != '/'
    match scheme.filter fun scheme => !(host scheme).isEmpty with
    | some scheme => some (.ofList (chars.take scheme.length ++ host scheme))
    | none => findAddress rest

/-- The key a source with an address is filed under. -/
def domainKey (sourceId : String) : Option String :=
  (findAddress sourceId.toList).bind fun address =>
    (calls.urlHost address).map fun host => "domain:" ++ host

/-- The trust ceiling of an observation under a track record. -/
def trustCeiling (reputation : Option ReputationName) (input : PerceptionGateInput Term) :
    JsNumber :=
  confidenceCeiling input.sourceQuality
    { reputation := reputation.map fun name => (tables name).effectiveCeiling
      sourceKey := some ((domainKey calls input.sourceId).getD input.sourceId)
      scaledBy := some input.sensorConfidence }

def parseObservation : Observation Term → Option Term × TaskType
  | .text text =>
    let parsed := calls.parseTaskTolerant text
    (parsed.map (·.1), (parsed.map (·.2)).getD .belief)
  | .object term itself type =>
    (match term with
      | some text => (calls.parseTaskTolerant text).map (·.1)
      | none => itself,
     match type with
      | some "goal" => .goal
      | some "question" => .question
      | some "command" => .command
      | _ => .belief)
  | .other => (none, .belief)

def mapSource (sourceId : String) : StimulusSource :=
  let mentions := fun names : List String => names.any (includes sourceId)
  if mentions ["user", "cli", "irc"] then .user
  else if mentions ["llm", "lm"] then .llm
  else if mentions ["derivation", "inference"] then .derivation
  else if mentions ["reflex", "game"] then .reflex
  else if mentions ["sensor", "perception"] then .sensor
  else .user

/-- The task that is admitted, once its event passes the schema. -/
def admittedTask (gate : KernelPerceptionGate) (taskId term : String) (taskType : TaskType)
    (truth : Option BeliefTruth) (source : StimulusSource) (confidence : JsNumber) :
    TaskAdmitted where
  taskId
  term
  taskType
  truth
  source
  budget := { gate.defaultBudget with priority := gate.defaultBudget.priority * confidence }

/-- The single admission path. An event that fails the schema throws: nothing is admitted. -/
def emitAdmitted (gate : KernelPerceptionGate) (task : TaskAdmitted) (correlationId : String) :
    Option PerceptionGateOutput × KernelPerceptionGate :=
  if task.valid then
    (some ⟨true, some task, none⟩, gate.emitEvent (.taskAdmitted task correlationId))
  else (none, gate)

/-- One refusal for the faults of the judge and its deadline. -/
def judgeFault (gate : KernelPerceptionGate) (correlationId detail kind : String) :
    Option PerceptionGateOutput × KernelPerceptionGate :=
  (some (rejection "System One ingress fault: admission rejected (fail-closed)"),
    gate.emitEvent (.policyViolation
      (recordPolicyViolation "systemone-ingress" "epistemic-firewall"
        ("systemone_ingress_" ++ kind ++ ": " ++ detail) correlationId)))

/-- What the judge is asked. -/
def judgmentRequest (input : PerceptionGateInput Term) (confidence : JsNumber)
    (taskType : TaskType) : IngressJudgmentRequest where
  rawObservation :=
    match input.rawObservation with
    | .text text => text
    | observation => calls.jsonText observation
  sourceQuality := input.sourceQuality
  baseConfidence := confidence
  taskType

/-- The task a verdict admits. -/
def judgedTask (gate : KernelPerceptionGate) (input : PerceptionGateInput Term) (term : Term)
    (taskType : TaskType) (verdict : IngressVerdict) (ids : MadeTaskIds) : TaskAdmitted :=
  gate.admittedTask ids.task (calls.termText term) (verdict.taskType.getD taskType)
    (some (asBeliefTruth verdict.truth)) (input.source.getD (mapSource input.sourceId))
    verdict.confidence

def admitViaJudge (gate : KernelPerceptionGate) (judge : IngressJudge)
    (input : PerceptionGateInput Term) (term : Term) (correlationId : String)
    (confidence : JsNumber) (taskType : TaskType) (ids : MadeTaskIds) :
    Option PerceptionGateOutput × KernelPerceptionGate :=
  match judge (judgmentRequest calls input confidence taskType) with
  | .error message => gate.judgeFault correlationId message "error"
  | .timeout =>
    let timeoutMs := gate.systemOne.judgeTimeoutMs.getD 2000
    gate.judgeFault correlationId ("judge exceeded " ++ calls.numberText timeoutMs ++ "ms")
      "timeout"
  | .verdict verdict =>
    match verdict.vetoReason.filter (· ≠ "") with
    | some reason => (some (rejection reason), gate)
    | none =>
      (if verdict.ambiguityFlag then gate.stimulate "curiosity" 1 else gate).emitAdmitted
        (gate.judgedTask calls input term taskType verdict ids) correlationId

/-- The task that is admitted where nothing judges it. -/
def symbolicTask (gate : KernelPerceptionGate) (input : PerceptionGateInput Term) (term : Term)
    (taskType : TaskType) (ids : MadeTaskIds) : TaskAdmitted :=
  let confidence := trustCeiling calls tables gate.reputation input
  gate.admittedTask ids.task (calls.termText term) taskType
    (if taskType = .belief then some ⟨1, confidence⟩ else none)
    (input.source.getD (mapSource input.sourceId)) confidence

/-- The judge that is asked about an observation. -/
def judgeInForce (gate : KernelPerceptionGate) : Option IngressJudge :=
  if gate.systemOne.enabled then gate.judge else none

/-- Decide on an observation. Nothing is returned where the event fails the schema. -/
def admitObservation (gate : KernelPerceptionGate) (input : PerceptionGateInput Term)
    (ids : MadeTaskIds) : Option PerceptionGateOutput × KernelPerceptionGate :=
  let correlation := input.correlationId.getD ids.correlation
  match parseObservation calls input.rawObservation with
  | (none, _) => (some (rejection "Failed to parse observation into valid Narsese term"), gate)
  | (some term, taskType) =>
    match gate.judgeInForce with
    | some judge =>
      gate.admitViaJudge calls judge input term correlation
        (trustCeiling calls tables gate.reputation input) taskType ids
    | none => gate.emitAdmitted (gate.symbolicTask calls tables input term taskType ids) correlation

/-! ### Runs of the gate -/

end

end KernelPerceptionGate

/-- What may be done to the gate. A track record has another table at each admission. -/
inductive PerceptionOperation (Term : Type) where
  | setReputation (reputation : ReputationName)
  | setDriveManager
  | admitObservation (tables : ReputationName → SourceReputation) (input : PerceptionGateInput Term)
      (ids : MadeTaskIds)

namespace KernelPerceptionGate

section

variable {Term : Type} (calls : PerceptionCalls Term)

def step (gate : KernelPerceptionGate) : PerceptionOperation Term → KernelPerceptionGate
  | .setReputation reputation => gate.setReputation reputation
  | .setDriveManager => gate.setDriveManager
  | .admitObservation tables input ids => (gate.admitObservation calls tables input ids).2

/-- The gate as a machine: everything may be done at any time. -/
def machine : Machine KernelPerceptionGate (PerceptionOperation Term) :=
  fun gate operation => some (gate.step calls operation)

variable {calls}

/-- The track record attached last. -/
def lastAttached (earlier : Option ReputationName) (history : List (PerceptionOperation Term)) :
    Option ReputationName :=
  history.foldl (fun attached operation =>
    match operation with
    | .setReputation reputation => some reputation
    | _ => attached) earlier

/-- The settings of a gate are those it was built with, and the track record attached last. -/
structure Keeps (first last : KernelPerceptionGate) (attached : Option ReputationName) : Prop where
  systemOne : last.systemOne = first.systemOne
  judge : last.judge = first.judge
  reputation : last.reputation = attached

theorem keeps_emitAdmitted (gate : KernelPerceptionGate) (task : TaskAdmitted)
    (correlationId : String) :
    Keeps gate (gate.emitAdmitted task correlationId).2 gate.reputation := by
  unfold emitAdmitted
  split <;> exact ⟨rfl, rfl, rfl⟩

theorem keeps_admitObservation (gate : KernelPerceptionGate)
    (tables : ReputationName → SourceReputation) (input : PerceptionGateInput Term)
    (ids : MadeTaskIds) :
    Keeps gate (gate.admitObservation calls tables input ids).2 gate.reputation := by
  unfold admitObservation
  split
  · exact ⟨rfl, rfl, rfl⟩
  · split
    · unfold admitViaJudge
      split
      · exact ⟨rfl, rfl, rfl⟩
      · exact ⟨rfl, rfl, rfl⟩
      · split
        · exact ⟨rfl, rfl, rfl⟩
        · split
          · have kept := keeps_emitAdmitted (gate.stimulate "curiosity" 1)
            exact ⟨(kept _ _).systemOne, (kept _ _).judge, (kept _ _).reputation⟩
          · exact keeps_emitAdmitted _ _ _
    · exact keeps_emitAdmitted _ _ _

theorem keeps_run {first last history} (run : Run (machine calls) first history last) :
    Keeps first last (lastAttached first.reputation history) := by
  induction run with
  | nil => exact ⟨rfl, rfl, rfl⟩
  | @cons first second last operation rest taken _ ih =>
    cases taken
    have kept : Keeps first (first.step calls operation)
        (lastAttached first.reputation [operation]) := by
      cases operation with
      | setReputation reputation => exact ⟨rfl, rfl, rfl⟩
      | setDriveManager => exact ⟨rfl, rfl, rfl⟩
      | admitObservation tables input ids => exact keeps_admitObservation first tables input ids
    refine ⟨ih.systemOne.trans kept.systemOne,
      ih.judge.trans kept.judge, ih.reputation.trans ?_⟩
    rw [kept.reputation]
    rfl

/-! ### Within the ceiling -/

variable (calls) (tables : ReputationName → SourceReputation)

/-- The confidence of the belief that is admitted, where one is. -/
def beliefConfidence (output : Option PerceptionGateOutput) : Option JsNumber :=
  output.bind fun decided => decided.task.bind fun task =>
    if task.taskType = .belief then task.truth.map (·.confidence) else none

/-- A belief that is admitted is within the trust ceiling of its source. -/
def WithinCeiling (supplied : Option ReputationName) (input : PerceptionGateInput Term)
    (output : Option PerceptionGateOutput) : Prop :=
  ∀ confidence, beliefConfidence output = some confidence →
    lessEq confidence (trustCeiling calls tables supplied input) = true

/-- What the judge says of a belief is within the ceiling. -/
def VerdictWithin (gate : KernelPerceptionGate) (judge : IngressJudge)
    (built attached : Option ReputationName) (input : PerceptionGateInput Term)
    (ids : MadeTaskIds) (term : Term) (taskType : TaskType) : Prop :=
  ∀ verdict,
    judge (judgmentRequest calls input (trustCeiling calls tables attached input) taskType) =
      .verdict verdict →
    verdict.vetoReason.filter (· ≠ "") = none → verdict.taskType.getD taskType = .belief →
    (gate.judgedTask calls input term taskType verdict ids).valid = true →
      lessEq verdict.truth.c (trustCeiling calls tables (attached.or built) input) = true

/-- A track record is attached, or the one the gate was built with does not lower the ceiling. -/
def RecordKept (gate : KernelPerceptionGate) (built attached : Option ReputationName)
    (input : PerceptionGateInput Term) (ids : MadeTaskIds) (term : Term) (taskType : TaskType) :
    Prop :=
  taskType = .belief → (gate.symbolicTask calls tables input term taskType ids).valid = true →
    attached = none →
      lessEq (trustCeiling calls tables none input) (trustCeiling calls tables built input) = true

/-- What keeps an observation within its ceiling. Only tasks the schema takes matter. -/
def Unraised (gate : KernelPerceptionGate) (built attached : Option ReputationName)
    (input : PerceptionGateInput Term) (ids : MadeTaskIds) : Prop :=
  ∀ term taskType, parseObservation calls input.rawObservation = (some term, taskType) →
    match gate.judgeInForce with
    | some judge => VerdictWithin calls tables gate judge built attached input ids term taskType
    | none => RecordKept calls tables gate built attached input ids term taskType

variable {calls tables}

theorem ne_nan_of_unitInterval {number} (unit : unitInterval number = true) : number ≠ .nan := by
  rintro rfl
  cases unit

variable {input : PerceptionGateInput Term} {gate : KernelPerceptionGate} {correlationId : String}

theorem withinCeiling_emitAdmitted {supplied task} :
    WithinCeiling calls tables supplied input (gate.emitAdmitted task correlationId).1 ↔
      (task.taskType = .belief → task.valid = true → ∀ truth, task.truth = some truth →
        lessEq truth.confidence (trustCeiling calls tables supplied input) = true) := by
  unfold emitAdmitted WithinCeiling
  split
  · rename_i valid
    show (∀ confidence, (if task.taskType = .belief then task.truth.map (·.confidence) else none) =
      some confidence → _) ↔ _
    constructor
    · intro within belief _ truth carried
      refine within truth.confidence ?_
      rw [if_pos belief, carried]
      rfl
    · intro within confidence found
      split at found
      · rename_i belief
        obtain ⟨truth, carried, rfl⟩ := Option.map_eq_some_iff.mp found
        exact within belief valid truth carried
      · cases found
  · rename_i invalid
    refine iff_of_true ?_ fun _ valid => absurd valid invalid
    rintro _ ⟨⟩

theorem withinCeiling_rejection {supplied reason} :
    WithinCeiling calls tables supplied input (some (rejection reason)) := by
  rintro _ ⟨⟩

theorem withinCeiling_admitViaJudge {judge built attached ids term taskType} :
    WithinCeiling calls tables (attached.or built) input
        (gate.admitViaJudge calls judge input term correlationId
          (trustCeiling calls tables attached input) taskType ids).1 ↔
      VerdictWithin calls tables gate judge built attached input ids term taskType := by
  unfold admitViaJudge VerdictWithin
  cases answer :
    judge (judgmentRequest calls input (trustCeiling calls tables attached input) taskType) with
  | error message => exact iff_of_true withinCeiling_rejection fun _ found => by cases found
  | timeout => exact iff_of_true withinCeiling_rejection fun _ found => by cases found
  | verdict verdict =>
    dsimp only
    cases vetoing : verdict.vetoReason.filter (· ≠ "") with
    | some reason =>
      refine iff_of_true withinCeiling_rejection ?_
      rintro _ ⟨rfl⟩ unvetoed
      rw [vetoing] at unvetoed
      cases unvetoed
    | none =>
      rw [withinCeiling_emitAdmitted]
      constructor
      · rintro within _ ⟨rfl⟩ _ belief valid
        exact within belief valid _ rfl
      · rintro within belief valid _ ⟨rfl⟩
        exact within verdict rfl vetoing belief valid

theorem withinCeiling_symbolic {built attached} (current : gate.reputation = attached)
    {ids term taskType} :
    WithinCeiling calls tables (attached.or built) input
        (gate.emitAdmitted (gate.symbolicTask calls tables input term taskType ids)
          correlationId).1 ↔
      RecordKept calls tables gate built attached input ids term taskType := by
  subst current
  rw [withinCeiling_emitAdmitted]
  have carried : taskType = .belief →
      (gate.symbolicTask calls tables input term taskType ids).truth =
        some ⟨1, trustCeiling calls tables gate.reputation input⟩ := fun belief => if_pos belief
  constructor
  · intro within belief valid unattached
    have bounded := within belief valid _ (carried belief)
    rwa [unattached, Option.none_or] at bounded
  · intro kept belief valid truth found
    cases (carried belief).symm.trans found
    cases attached : gate.reputation with
    | none =>
      exact kept belief valid attached
    | some reputation =>
      rw [Option.some_or, ← attached]
      rw [TaskAdmitted.valid, carried belief, Option.all_some] at valid
      have unit := (Bool.and_eq_true_iff.mp (Bool.and_eq_true_iff.mp valid).1).2
      exact lessEq_refl (ne_nan_of_unitInterval unit)

/-- Over a run, an admission stays within the ceiling exactly where nothing raises it. -/
theorem withinCeiling_iff_unraised {config : KernelPerceptionGateConfig}
    {history : List (PerceptionOperation Term)} {gate : KernelPerceptionGate}
    (run : Run (machine calls) (new config) history gate) (input : PerceptionGateInput Term)
    (ids : MadeTaskIds) :
    WithinCeiling calls tables ((lastAttached none history).or config.reputation) input
        (gate.admitObservation calls tables input ids).1 ↔
      Unraised calls tables gate config.reputation (lastAttached none history) input ids := by
  have current : gate.reputation = lastAttached none history := (keeps_run run).reputation
  unfold admitObservation Unraised
  dsimp only
  rcases parsed : parseObservation calls input.rawObservation with ⟨_ | term, taskType⟩
  · exact iff_of_true withinCeiling_rejection fun _ _ found => by cases found
  have one : ∀ {condition : Term → TaskType → Prop},
      (∀ other otherType, (some term, taskType) = (some other, otherType) →
        condition other otherType) ↔ condition term taskType := by
    intro condition
    constructor
    · exact fun each => each term taskType rfl
    · rintro holds _ _ ⟨rfl⟩
      exact holds
  rw [one]
  cases gate.judgeInForce with
  | none => exact withinCeiling_symbolic current
  | some judge =>
    dsimp only
    rw [current]
    exact withinCeiling_admitViaJudge

end

/-! ### Two ways past the ceiling -/

/-- Calls for observations that are one word. -/
def wordCalls : PerceptionCalls String where
  parseTaskTolerant text := some (text, .belief)
  termText text := text
  jsonText _ := "null"
  urlHost _ := none
  numberText _ := "2000"

/-- A peer that has been contradicted twice and never confirmed. -/
def contradictedPeer : ReputationName → SourceReputation := fun _ =>
  { entries := (Unify.LruCache.new 10000).set "peer" ⟨0, 2⟩
    floor := .finite (1 / 2)
    decayGate := 2 }

def peerInput (sourceQuality : SourceQuality) : PerceptionGateInput String where
  sourceId := "peer"
  source := none
  rawObservation := .text "robin"
  sensorConfidence := 1
  sourceQuality
  correlationId := some "correlation"

/-- A judge that is sure of everything. -/
def certainJudge : IngressJudge := fun request =>
  .verdict
    { vetoReason := none
      taskType := some request.taskType
      ambiguityFlag := false
      confidence := 1
      truth := ⟨1, 1⟩ }

theorem withinCeiling_iff_unraised_peer :
    WithinCeiling wordCalls contradictedPeer (some 0) (peerInput .primary)
        (((new { reputation := some 1 }).setReputation 0).admitObservation wordCalls
          contradictedPeer (peerInput .primary) ⟨"correlation", "task"⟩).1 ↔
      Unraised wordCalls contradictedPeer ((new { reputation := some 1 }).setReputation 0) (some 1)
        (some 0) (peerInput .primary) ⟨"correlation", "task"⟩ :=
  withinCeiling_iff_unraised
    (run_of_execute rfl : Run (machine wordCalls) (new { reputation := some 1 })
      [.setReputation 0] _) (peerInput .primary) ⟨"correlation", "task"⟩

/-- The track record a gate is built with does not lower its ceilings, and the judge of a gate
may pass them. -/
theorem ceiling_passed :
    (¬ ∀ (calls : PerceptionCalls String) (config : KernelPerceptionGateConfig)
        (history : List (PerceptionOperation String)) (gate : KernelPerceptionGate),
      config.systemOne = none → Run (machine calls) (new config) history gate →
        ∀ tables input ids,
          WithinCeiling calls tables ((lastAttached none history).or config.reputation) input
            (gate.admitObservation calls tables input ids).1) ∧
    ¬ ∀ (calls : PerceptionCalls String) (config : KernelPerceptionGateConfig)
        (history : List (PerceptionOperation String)) (gate : KernelPerceptionGate),
      config.reputation = none → Run (machine calls) (new config) history gate →
        ∀ tables input ids,
          WithinCeiling calls tables ((lastAttached none history).or config.reputation) input
            (gate.admitObservation calls tables input ids).1 := by
  refine ⟨fun always => ?_, fun always => ?_⟩
  · have within := always wordCalls { reputation := some 0 } [] _ rfl (.nil _) contradictedPeer
      (peerInput .primary) ⟨"correlation", "task"⟩ (.finite (9 / 10)) (by decide +kernel)
    revert within
    decide +kernel
  · have within := always wordCalls
      { systemOne := some { enabled := true, judge := some certainJudge } } [] _ rfl (.nil _)
      contradictedPeer (peerInput .tertiary) ⟨"correlation", "task"⟩ 1 (by decide +kernel)
    revert within
    decide +kernel

end KernelPerceptionGate

end Senars.Kernel
