/-
This file is the verifier of derivation records: the shape a record is checked
for, the checks on one step, and the loop over the steps.

The schema library is outside: what it accepts as an identifier and how it words
an issue are parameters. So is how the script writes a number into a message. A
truth function that is looked up under a name every object inherits is not in the
table and cannot be applied, which is the one way a check throws.
-/

import Senars.Algebra.Verifier
import Senars.Library.Text

namespace Senars.Derivations

open Library Library.JsNumber Senars.Algebra

/-! ### Records -/

structure TruthValue where
  frequency : JsNumber
  confidence : JsNumber
  deriving DecidableEq

inductive Independence where
  | independent | dependent | unknown
  deriving DecidableEq

/-- One step of a derivation. The names of `evidenceLineage` are its parents. -/
structure DerivationStep where
  stepId : String
  ruleId : String
  premises : List String
  conclusion : String
  truth : TruthValue
  truthFn : Option String
  substitution : Option (List (String × String))
  premiseTruths : Option (List TruthValue)
  evidenceLineage : List String
  independence : Independence
  cycle : Option JsNumber
  timestamp : Option JsNumber
  deriving DecidableEq

structure DerivationRecord where
  derivationId : String
  taskId : String
  steps : List DerivationStep
  finalTruth : TruthValue
  totalCycles : JsNumber
  maxDepthReached : JsNumber
  timestamp : JsNumber
  deriving DecidableEq

/-- One issue of a schema. -/
structure SchemaIssue where
  path : List String
  message : String

/-- What the schema library says: which texts are identifiers, and the issues of a record that
does not have the shape. -/
structure SchemaLibrary where
  isUuid : String → Bool
  issues : DerivationRecord → List SchemaIssue

/-- How the script writes a number into a message. -/
structure NumberFormat where
  toText : JsNumber → String
  toFixed : JsNumber → Nat → String

def formatIssues (issues : List SchemaIssue) (separator : String) : String :=
  join separator (issues.map fun issue =>
    (if join "." issue.path = "" then "(root)" else join "." issue.path) ++ ": " ++ issue.message)

/-! ### The shape of a record -/

def unitInterval (number : JsNumber) : Bool := lessEq 0 number && lessEq number 1

def nonNegativeInt (number : JsNumber) : Bool := number.isSafeInteger && lessEq 0 number

def positiveInt (number : JsNumber) : Bool := number.isSafeInteger && less 0 number

def TruthValue.conforms (truth : TruthValue) : Bool :=
  unitInterval truth.frequency && unitInterval truth.confidence

/-- `DerivationStepSchema`, for what the type of a step leaves open. -/
def DerivationStep.conforms (isUuid : String → Bool) (step : DerivationStep) : Bool :=
  isUuid step.stepId && step.truth.conforms &&
    (step.premiseTruths.getD []).all TruthValue.conforms &&
    step.evidenceLineage.all isUuid &&
    step.cycle.all nonNegativeInt && step.timestamp.all positiveInt

/-- `DerivationRecordSchema`, for what the type of a record leaves open. -/
def DerivationRecord.conforms (isUuid : String → Bool) (record : DerivationRecord) : Bool :=
  isUuid record.derivationId && isUuid record.taskId &&
    record.steps.all (DerivationStep.conforms isUuid) && record.finalTruth.conforms &&
    nonNegativeInt record.totalCycles && nonNegativeInt record.maxDepthReached &&
    positiveInt record.timestamp

/-! ### The truth function of a step -/

/-- What a lookup in the truth tables gives: an entry, or a member every object inherits. -/
inductive TruthFn where
  | binary (name : BinaryName)
  | unary (name : UnaryName)
  | inherited
  deriving DecidableEq

def TruthFn.arity : TruthFn → Nat
  | .binary _ => 2
  | .unary _ => 1
  | .inherited => 2

/-- `Object.keys(BINARY_TRUTH)`. -/
def binaryNames : List BinaryName :=
  [.deduction, .induction, .abduction, .exemplification, .comparison, .analogy, .resemblance,
    .intersection, .union, .revision, .detachment, .contraposition, .sameness]

/-- `Object.keys(UNARY_TRUTH)`. -/
def unaryNames : List UnaryName := [.negationIntro, .negationElim, .negation, .conversion]

/-- The members of `Object.prototype`. -/
def inheritedNames : List String :=
  ["constructor", "__defineGetter__", "__defineSetter__", "hasOwnProperty", "__lookupGetter__",
    "__lookupSetter__", "isPrototypeOf", "propertyIsEnumerable", "toString", "valueOf",
    "__proto__", "toLocaleString"]

/-- The entry of exactly this name. -/
def declaredTruthFn (name : Option String) : Option TruthFn :=
  match name with
  | none => none
  | some name =>
    match binaryNames.find? fun binary => binary.text = name with
    | some binary => some (.binary binary)
    | none =>
      if name ∈ inheritedNames then some .inherited
      else (unaryNames.find? fun unary => unary.text = name).map .unary

/-- The first entry whose name occurs in a key. -/
def bySubstring (key : String) : Option TruthFn :=
  match binaryNames.find? fun binary => includes key binary.text with
  | some binary => some (.binary binary)
  | none => (unaryNames.find? fun unary => includes key unary.text).map .unary

def inferTruthFnFromRuleId (ruleId : String) : Option TruthFn :=
  let key := String.ofList ((toLowerCase ruleId).toList.map fun char =>
    if char = '_' then '-' else char)
  (declaredTruthFn (some key)).or (bySubstring key)

def resolveTruthFn (ruleId : String) (declaredName : Option String) : Option TruthFn :=
  (declaredTruthFn declaredName).or (inferTruthFnFromRuleId ruleId)

/-! ### Checking one step -/

structure VerificationFinding where
  stepId : Option String
  check : String
  detail : String
  deriving DecidableEq

def formatFinding (finding : VerificationFinding) : String :=
  "[" ++ finding.check ++ "]" ++
    (match finding.stepId with
      | some stepId => if stepId = "" then "" else " step " ++ stepId
      | none => "") ++
    ": " ++ finding.detail

/-- The verdict on one step. -/
structure StepVerificationResult where
  stepId : String
  ok : Bool
  errors : List String
  findings : List VerificationFinding
  declaredTruth : TruthValue
  computedTruth : Option TruthValue

/-- How many steps the table reproduced, and how many it could not judge. -/
structure ProofState where
  verified : Nat
  skipped : Nat

structure StepOptions where
  epsilon : JsNumber
  strict : Bool

def nearlyEqual (first second epsilon : JsNumber) : Bool :=
  lessEq (JsNumber.abs (first - second)) epsilon

section Step

variable (format : NumberFormat) (options : StepOptions) (taskId : String)

/-- The findings on the shape of a step. -/
def shapeFindings (step : DerivationStep) : List VerificationFinding :=
  let fail check detail : VerificationFinding := ⟨some step.stepId, check, detail⟩
  (if blank step.ruleId then [fail "rule-shape" "Missing ruleId"] else []) ++
    (if step.premises.length = 0 then [fail "premise-shape" "No premises provided"] else []) ++
    (if step.premises.any blank then [fail "premise-shape" "Empty premise term string"] else []) ++
    (if blank step.conclusion then [fail "conclusion-shape" "Empty conclusion term string"] else [])

/-- The finding on one binding of a step's substitution. -/
def bindingFindings (step : DerivationStep) (binding : String × String) :
    List VerificationFinding :=
  let fail check detail : VerificationFinding := ⟨some step.stepId, check, detail⟩
  if blank binding.2 then
    [fail "substitution-value" ("Variable " ++ binding.1 ++ " binds empty value")]
  else if !step.premises.any (includes · binding.1) then
    [fail "substitution-premise" ("Variable " ++ binding.1 ++ " appears in no premise")]
  else if !includes step.conclusion binding.1 && !includes step.conclusion binding.2 then
    [fail "substitution-conclusion"
      ("Neither " ++ binding.1 ++ " nor its value appears in conclusion")]
  else []

/-- The finding on one parent of a step: it is a step before it, or the task. -/
def parentFindings (priorStepIds : List String) (step : DerivationStep) (parent : String) :
    List VerificationFinding :=
  if parent ∉ priorStepIds ∧ parent ≠ taskId then
    [⟨some step.stepId, "lineage-dag",
      "Lineage " ++ parent ++ " is neither a prior step nor the taskId"⟩]
  else []

def independenceFindings (step : DerivationStep) : List VerificationFinding :=
  if step.independence = .unknown ∧ includes (toLowerCase step.ruleId) "revision" then
    [⟨some step.stepId, "evidence-independence",
      "Revision with unknown independence must be conservatively rejected by the engine"⟩]
  else []

/-- What a truth function computes. An inherited member gives no pair to read. -/
def applyTruthFn (fn : TruthFn) (premiseTruths : List TruthValue) : Except String TruthValue :=
  match fn, premiseTruths with
  | .binary name, [first, second] =>
    let computed := binaryTruth name first.frequency second.frequency first.confidence
      second.confidence
    .ok ⟨computed.1, computed.2⟩
  | .unary name, [only] =>
    let computed := unaryTruth name only.frequency only.confidence
    .ok ⟨computed.1, computed.2⟩
  | _, _ => .error "TypeError"

/-- What the truth of a step comes to: its findings, what was computed, and whether it was
reproduced or could not be judged. -/
structure TruthCheck where
  findings : List VerificationFinding
  computedTruth : Option TruthValue
  state : ProofState

def checkTruth (step : DerivationStep) (state : ProofState) : Except String TruthCheck := do
  let skipped := { state with skipped := state.skipped + 1 }
  match resolveTruthFn step.ruleId step.truthFn with
  | none =>
    .ok ⟨if options.strict then [⟨some step.stepId, "unknown-rule",
      "No truth function for ruleId '" ++ step.ruleId ++ "'"⟩] else [], none, skipped⟩
  | some fn =>
    match step.premiseTruths with
    | none => .ok ⟨[], none, skipped⟩
    | some premiseTruths =>
      if premiseTruths.length ≠ fn.arity then .ok ⟨[], none, skipped⟩
      else
        let computed ← applyTruthFn fn premiseTruths
        if nearlyEqual computed.frequency step.truth.frequency options.epsilon &&
            nearlyEqual computed.confidence step.truth.confidence options.epsilon then
          .ok ⟨[], some computed, { state with verified := state.verified + 1 }⟩
        else
          .ok ⟨[⟨some step.stepId, "truth-algebra",
            "Expected f=" ++ format.toFixed computed.frequency 6 ++
              " c=" ++ format.toFixed computed.confidence 6 ++
              ", got f=" ++ format.toText step.truth.frequency ++
              " c=" ++ format.toText step.truth.confidence ++ " via " ++ step.ruleId⟩],
            some computed, state⟩

/-- Verify one step: shape, substitution, lineage, independence, truth. -/
def verifyStep (step : DerivationStep) (priorStepIds : List String) (state : ProofState) :
    Except String (StepVerificationResult × ProofState) := do
  let truth ← checkTruth format options step state
  let findings := shapeFindings step ++
    (step.substitution.getD []).flatMap (bindingFindings step) ++
    step.evidenceLineage.flatMap (parentFindings taskId priorStepIds step) ++
    independenceFindings step ++ truth.findings
  .ok (⟨step.stepId, findings.length = 0, findings.map formatFinding, findings, step.truth,
    truth.computedTruth⟩, truth.state)

/-! ### Checking a record -/

/-- What the loop over the steps leaves: the duplicates it found, a verdict a step, the counts. -/
structure StepsVerified where
  duplicates : List VerificationFinding
  stepResults : List StepVerificationResult
  state : ProofState

/-- The loop over the steps, which remembers the ids it has seen. -/
def verifySteps : List DerivationStep → List String → ProofState → Except String StepsVerified
  | [], _, state => .ok ⟨[], [], state⟩
  | step :: rest, seen, state => do
    let duplicate : List VerificationFinding := if step.stepId ∈ seen then
      [⟨some step.stepId, "unique-step-id", "Duplicate stepId " ++ step.stepId⟩] else []
    let (result, state) ← verifyStep format options taskId step seen state
    let later ← verifySteps rest (step.stepId :: seen) state
    .ok ⟨duplicate ++ later.duplicates, result :: later.stepResults, later.state⟩

end Step

structure VerifyOptions where
  strict : Option Bool := none
  epsilon : Option JsNumber := none
  maxSteps : Option JsNumber := none

def defaultEpsilon : JsNumber := .finite (1 / 1000000)

/-- The steps a verification looks at: all of them, or the first `maxSteps`. -/
def VerifyOptions.toVerify (options : VerifyOptions) (steps : List DerivationStep) :
    List DerivationStep :=
  match options.maxSteps with
  | some maxSteps => if maxSteps.truthy then sliceTo steps maxSteps else steps
  | none => steps

structure VerificationResult where
  derivationId : String
  ok : Bool
  errors : List String
  findings : List VerificationFinding
  stepResults : List StepVerificationResult
  truthVerified : Nat
  truthSkipped : Nat
  verifiedAt : Nat

/-- The finding on how a record ends: its last step carries the final truth, and a record of no
steps claims no cycles. -/
def endFindings (epsilon : JsNumber) (record : DerivationRecord) (verified : List DerivationStep) :
    List VerificationFinding :=
  match verified.getLast? with
  | some last =>
    if !nearlyEqual last.truth.frequency record.finalTruth.frequency epsilon ||
        !nearlyEqual last.truth.confidence record.finalTruth.confidence epsilon then
      [⟨none, "final-truth", "finalTruth does not match last step truth"⟩]
    else []
  | none =>
    if less 0 record.totalCycles then
      [⟨none, "empty-derivation", "Record claims cycles but has no steps"⟩]
    else []

/-- Verify a derivation record end to end, at the time `now`. -/
def verifyRecord (schema : SchemaLibrary) (format : NumberFormat) (now : Nat)
    (record : DerivationRecord) (options : VerifyOptions) : Except String VerificationResult := do
  let result findings stepResults (state : ProofState) : VerificationResult :=
    ⟨record.derivationId, findings.length = 0, findings.map formatFinding, findings, stepResults,
      state.verified, state.skipped, now⟩
  if !record.conforms schema.isUuid then
    .ok (result [⟨none, "record-shape", formatIssues (schema.issues record) "; "⟩] [] ⟨0, 0⟩)
  else
    let epsilon := options.epsilon.getD defaultEpsilon
    let toVerify := options.toVerify record.steps
    let steps ← verifySteps format ⟨epsilon, options.strict.getD false⟩ record.taskId toVerify []
      ⟨0, 0⟩
    .ok (result (steps.duplicates ++ steps.stepResults.flatMap (·.findings) ++
      endFindings epsilon record toVerify) steps.stepResults steps.state)

end Senars.Derivations
