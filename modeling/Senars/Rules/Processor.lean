/-
This file is the rule processor and the turn of one rule in a sweep: what it
charges, the check on the depth of meta rules, what of a conclusion is kept, and
the step that is recorded.

The rule bodies and the table are what the processor is built with.
-/

import Senars.Control.Budgets
import Senars.Rules.Recorder

namespace Senars.Rules

open Library Terms Control Senars.Algebra

/-! ### Rules -/

structure RegisteredRule where
  id : String
  apply : Term × Term → RuleInput × RuleInput → Except String (Option Term)
  sync : Bool
  priority : ℚ
  truthFn : Option (Truth → Truth → Option Truth)
  truthFnName : Option String
  taskType : Option TaskType

structure ModelRule where
  id : String
  priority : ℚ

/-- The rules for a pair of kinds, in the order they are tried. -/
abbrev InferenceTable := Option OperatorKey → Option OperatorKey → List RegisteredRule

def neutralTruth : Truth := normalizeTruth (.finite (1 / 2)) (.finite (9 / 10))

/-- The stamp of what is derived from a pair, a fresh one where the lineage is too long. -/
def deriveStamp (p1 p2 : RuleInput) (id : String) : Stamp :=
  (Stamp.derive [p1.stamp, p2.stamp] id).getD (Stamp.createInput id)

def buildResult (term : Term) (rule : RegisteredRule) (p1 p2 : RuleInput) (stampId : String) :
    RuleResult where
  term
  truth := ((rule.truthFn.getD fun _ _ => some neutralTruth) p1.truth p2.truth).getD neutralTruth
  stamp := deriveStamp p1 p2 stampId
  priority := rule.priority
  taskType := rule.taskType

/-- A rule about the reasoner's own operation. -/
def isMetaRule (rule : RegisteredRule) : Bool := "meta-".toList.isPrefixOf rule.id.toList

/-- The drive intensity above which meta rules are active. -/
def metaRuleActivationThreshold : ℚ := 6 / 10

def shouldActivateMetaReasoning (intensities : List ℚ) : Bool :=
  intensities.any fun intensity => decide (metaRuleActivationThreshold < intensity)

/-! ### The processor -/

/-- Meta-reasoning nesting, as a high-water mark. -/
structure MetaDepthState where
  currentDepth : Nat
  maxDepth : Nat

structure RuleProcessor where
  table : InferenceTable
  modelRules : List ModelRule
  recorder : DerivationRecorder
  limitConclusionGrowth : Bool
  metaDepth : MetaDepthState
  budgets : ControlBudgetPort
  /-- How many stamps were made. -/
  stamps : Nat

/-- What the processor takes from outside. -/
structure ProcessorOutside extends Outside where
  stampId : Nat → String

/-- A pair of premises and what a sweep works out about it once. -/
structure PremisePair where
  p1 : RuleInput
  p2 : RuleInput
  metaActive : Bool
  premiseDepth : Nat

/-- What the turn of a rule came to: the sweep is out of budget, the rule concluded nothing, it
was refused for its depth, it concluded what is not kept, or it has a result. -/
inductive Turn where
  | exhausted
  | nothing
  | tooDeep
  | unkept
  | concluded (result : RuleResult)

namespace RuleProcessor

def candidates (processor : RuleProcessor) (p1 p2 : RuleInput) : List RegisteredRule :=
  processor.table p1.term.kind? p2.term.kind?

/-- Meta-reasoning activation, for the drive states of the host. -/
def metaActive (matched : List RegisteredRule) (driveStates : Option (List ℚ)) : Bool :=
  (matched.any fun rule => rule.sync && isMetaRule rule) &&
    (match driveStates with
      | none => false
      | some intensities => shouldActivateMetaReasoning intensities)

def pairOf (processor : RuleProcessor) (p1 p2 : RuleInput) (driveStates : Option (List ℚ)) :
    PremisePair where
  p1
  p2
  metaActive := metaActive (processor.candidates p1 p2) driveStates
  premiseDepth :=
    if processor.limitConclusionGrowth then max (termDepth p1.term) (termDepth p2.term) else 0

def charge (processor : RuleProcessor) (scopeId : BudgetScopeId) : Bool × RuleProcessor :=
  ((processor.budgets.charge scopeId).1,
    { processor with budgets := (processor.budgets.charge scopeId).2 })

/-- Note that a meta rule concluded at this nesting depth. -/
def recordMetaDerivation (processor : RuleProcessor) (depth : Nat) : RuleProcessor :=
  { processor with
    metaDepth := { processor.metaDepth with
      currentDepth := max processor.metaDepth.currentDepth depth } }

/-- What a rule concludes from a pair and may keep. -/
def outputOf (rule : RegisteredRule) (pair : PremisePair) : Option Term :=
  match rule.apply (pair.p1.term, pair.p2.term) (pair.p1, pair.p2) with
  | .error _ => none
  | .ok none => none
  | .ok (some term) => if validateRuleOutput term then some term else none

/-- A conclusion is new when it is neither premise and has not grown past the limit. -/
def isNew (processor : RuleProcessor) (pair : PremisePair) (term : Term) : Bool :=
  !(termKey term == termKey pair.p1.term || termKey term == termKey pair.p2.term) &&
    !(processor.limitConclusionGrowth && decide (pair.premiseDepth < termDepth term))

/-- Apply one rule that may be applied, and record what it concludes. -/
def applyRule (outside : ProcessorOutside) (processor : RuleProcessor) (pair : PremisePair)
    (rule : RegisteredRule) (number : Nat) : Turn × RuleProcessor :=
  match outputOf rule pair with
  | none => (.nothing, processor)
  | some term =>
    let noted := if isMetaRule rule then
        processor.recordMetaDerivation (processor.metaDepth.currentDepth + 1)
      else processor
    if noted.isNew pair term then
      let result := buildResult term rule pair.p1 pair.p2 (outside.stampId noted.stamps)
      (.concluded result,
        { noted with
          stamps := noted.stamps + 1
          recorder := noted.recorder.record outside.toOutside rule.id pair.p1 pair.p2 result
            rule.truthFnName number })
    else (.unkept, noted)

/-- The turn of one rule in a sweep. -/
def turn (outside : ProcessorOutside) (processor : RuleProcessor) (pair : PremisePair)
    (rule : RegisteredRule) (number : Nat) : Turn × RuleProcessor :=
  if rule.sync then
    let candidate := processor.charge .candidateDerivations
    if candidate.1 then
      if isMetaRule rule then
        if pair.metaActive then
          if candidate.2.metaDepth.currentDepth + 1 < candidate.2.metaDepth.maxDepth then
            let work := candidate.2.charge .controlWork
            if work.1 then applyRule outside work.2 pair rule number else (.nothing, work.2)
          else (.tooDeep, candidate.2)
        else (.nothing, candidate.2)
      else applyRule outside candidate.2 pair rule number
    else (.exhausted, candidate.2)
  else (.nothing, processor)

end RuleProcessor

/-! ### What a turn changes -/

namespace RuleProcessor

variable {outside : ProcessorOutside} {processor : RuleProcessor} {pair : PremisePair}
  {rule : RegisteredRule} {number : Nat}

@[simp] theorem charge_recorder (scopeId : BudgetScopeId) :
    (processor.charge scopeId).2.recorder = processor.recorder := rfl

@[simp] theorem charge_metaDepth (scopeId : BudgetScopeId) :
    (processor.charge scopeId).2.metaDepth = processor.metaDepth := rfl

/-- What a turn can come to, when the rule may be applied or not. -/
inductive TurnSpec (outside : ProcessorOutside) (processor : RuleProcessor) (pair : PremisePair)
    (rule : RegisteredRule) (number : Nat) : Turn × RuleProcessor → Prop
  | passed {turn : Turn} {after : RuleProcessor} (quiet : turn = .exhausted ∨ turn = .nothing)
      (recorder : after.recorder = processor.recorder)
      (metaDepth : after.metaDepth = processor.metaDepth) :
      TurnSpec outside processor pair rule number (turn, after)
  | tooDeep {after : RuleProcessor} (isMeta : isMetaRule rule = true) (sync : rule.sync = true)
      (active : pair.metaActive = true)
      (deep : processor.metaDepth.maxDepth ≤ processor.metaDepth.currentDepth + 1)
      (recorder : after.recorder = processor.recorder)
      (metaDepth : after.metaDepth = processor.metaDepth) :
      TurnSpec outside processor pair rule number (.tooDeep, after)
  | unkept {after : RuleProcessor} (recorder : after.recorder = processor.recorder)
      (limit : after.metaDepth.maxDepth = processor.metaDepth.maxDepth)
      (depth : after.metaDepth.currentDepth =
        if isMetaRule rule then processor.metaDepth.currentDepth + 1
        else processor.metaDepth.currentDepth) :
      TurnSpec outside processor pair rule number (.unkept, after)
  | concluded {after : RuleProcessor} (result : RuleResult)
      (recorder : after.recorder = processor.recorder.record outside.toOutside rule.id pair.p1
        pair.p2 result rule.truthFnName number)
      (limit : after.metaDepth.maxDepth = processor.metaDepth.maxDepth)
      (depth : after.metaDepth.currentDepth =
        if isMetaRule rule then processor.metaDepth.currentDepth + 1
        else processor.metaDepth.currentDepth) :
      TurnSpec outside processor pair rule number (.concluded result, after)

theorem applyRule_spec :
    TurnSpec outside processor pair rule number
      (applyRule outside processor pair rule number) := by
  unfold applyRule
  split
  · exact .passed (.inr rfl) rfl rfl
  · cases isMeta : isMetaRule rule with
    | true =>
      simp only [if_true]
      split
      · exact .concluded _ rfl rfl (by simp [recordMetaDerivation, isMeta])
      · exact .unkept rfl rfl (by simp [recordMetaDerivation, isMeta])
    | false =>
      simp only [Bool.false_eq_true, if_false]
      split
      · exact .concluded _ rfl rfl (by simp [isMeta])
      · exact .unkept rfl rfl (by simp [isMeta])

theorem TurnSpec.of_charged {before output}
    (spec : TurnSpec outside before pair rule number output)
    (recorder : before.recorder = processor.recorder)
    (metaDepth : before.metaDepth = processor.metaDepth) :
    TurnSpec outside processor pair rule number output := by
  cases spec with
  | passed quiet sameRecorder sameDepth =>
    exact .passed quiet (sameRecorder.trans recorder) (sameDepth.trans metaDepth)
  | tooDeep isMeta sync active deep sameRecorder sameDepth =>
    exact .tooDeep isMeta sync active (metaDepth ▸ deep) (sameRecorder.trans recorder)
      (sameDepth.trans metaDepth)
  | unkept sameRecorder limit depth =>
    exact .unkept (sameRecorder.trans recorder) (metaDepth ▸ limit) (metaDepth ▸ depth)
  | concluded result recorded limit depth =>
    exact .concluded result (recorder ▸ recorded) (metaDepth ▸ limit) (metaDepth ▸ depth)

theorem turn_spec :
    TurnSpec outside processor pair rule number (turn outside processor pair rule number) := by
  unfold turn
  split
  · rename_i sync
    simp only
    split
    · cases isMeta : isMetaRule rule with
      | true =>
        simp only [if_true]
        split
        · rename_i active
          split
          · split
            · exact applyRule_spec.of_charged rfl rfl
            · exact .passed (.inr rfl) rfl rfl
          · rename_i deep
            exact .tooDeep isMeta sync active (Nat.le_of_not_lt deep) rfl rfl
        · exact .passed (.inr rfl) rfl rfl
      | false =>
        exact applyRule_spec.of_charged rfl rfl
    · exact .passed (.inl rfl) rfl rfl
  · exact .passed (.inr rfl) rfl rfl

end RuleProcessor

end Senars.Rules
