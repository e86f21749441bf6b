/-
This file is the judgment ladder of the dispatcher: the answer of a tier is a list
of propositions or a failure, and `judge` decides whose list is returned and which
entries of it are replaced.

The tiers and the budget gate are outside: an answer is an argument, and the gate
is what it says to a charge. An entry of a list may be missing, which is how the
script reads past the end of a shorter answer; a missing entry makes the reader of
a proposition's cost throw.
-/

import Senars.Library.JsNumber

namespace Senars.SystemOne

open Library Library.JsNumber

/-! ### Queries and propositions -/

inductive RubricId where
  | ambiguity | relevance | groundedness | novelty | feasibility | conflict | injection
  | plausibility | assertion | taskType | illocution | tense | sourceQuality | toolDispatch
  | risk | candidateSelect | reflexValue | strategy | episodicMatch
  deriving DecidableEq

inductive CriticalityLevel where
  | low | standard | high | critical
  deriving DecidableEq

inductive JudgmentQuery where
  | classify (rubric : Option RubricId) (criticality : Option CriticalityLevel)
  | evaluate (rubric : RubricId) (criticality : Option CriticalityLevel)
  deriving DecidableEq

structure ResourceCost where
  tokensIn : JsNumber
  tokensOut : JsNumber
  computeMs : JsNumber
  memoryMb : JsNumber
  deriving DecidableEq

def noCost : ResourceCost := ⟨0, 0, 0, 0⟩

/-- What a proposition is about. A classification says how probable its top option is. -/
inductive Judgment where
  | classify (topP : JsNumber)
  | evaluate
  deriving DecidableEq

/-- The tier a proposition says it is from. -/
inductive Tier where
  | tier0 | tier1 | tier2 | tier3
  deriving DecidableEq

structure JudgmentProposition where
  queryId : String
  backendId : String
  judgment : Judgment
  score : Option JsNumber
  tier : Tier
  abstained : Bool
  cost : Option ResourceCost
  deriving DecidableEq

/-! ### The safety floor -/

/-- An injection or assertion query of high criticality. An index miss is none. -/
def isSafetyFloor : Option JudgmentQuery → Bool
  | some (.evaluate rubric criticality) =>
    (rubric = .injection || rubric = .assertion) &&
      (criticality = some .high || criticality = some .critical)
  | _ => false

def safetyFloorVetoScore : JsNumber := .finite (99 / 100)

/-- A proposition rewritten to fail closed. -/
def failClosed (proposition : JudgmentProposition) : JudgmentProposition :=
  { proposition with score := some safetyFloorVetoScore, abstained := false, tier := .tier1 }

/-! ### The charge of a batch -/

/-- The gate's answer to a charge of this many calls. -/
abbrev BudgetGate := JsNumber → Bool

def resourceCostToLmCalls (cost : ResourceCost) : JsNumber :=
  JsNumber.max 1 (ceil ((cost.tokensIn + cost.tokensOut) / 100) +
    (if less 100 cost.computeMs then 1 else 0))

/-- The cost of a proposition is there and none of the three amounts checked is negative. -/
def costReported (proposition : Option JudgmentProposition) : Bool :=
  match proposition.bind (·.cost) with
  | some cost => !(less cost.tokensIn 0 || less cost.computeMs 0 || less cost.memoryMb 0)
  | none => false

/-- The first item of the greatest score. -/
def maxBy {Item : Type} (items : List Item) (score : Item → JsNumber) : Option Item :=
  (items.foldl (fun best item =>
    if less best.2 (score item) then (some item, score item) else best)
    ((none, .infinite true) : Option Item × JsNumber)).1

/-- Charge the greatest cost of a batch. A batch with a missing entry throws. -/
def chargeBatch (gate : Option BudgetGate) (results : List (Option JudgmentProposition)) :
    Except String Bool :=
  match gate with
  | none => .ok true
  | some granted =>
    if none ∈ results then .error "TypeError"
    else
      let costOf (result : Option JudgmentProposition) := result.bind (·.cost)
      let maxCost := ((maxBy results fun result =>
        match costOf result with
        | some cost => resourceCostToLmCalls cost
        | none => .infinite true).bind costOf).getD noCost
      .ok (granted (resourceCostToLmCalls maxCost))

/-! ### The ladder -/

section Judge

variable (gate : Option BudgetGate) (queries : List JudgmentQuery)

/-- The entry for a Tier-1 result: the veto where a floor query abstained, Tier 0 where another
did or is not confident, and the result itself otherwise. -/
def overrideTier1 (tier0Results : List JudgmentProposition) (index : Nat)
    (result : JudgmentProposition) : Option JudgmentProposition :=
  if result.abstained && isSafetyFloor queries[index]? then some (failClosed result)
  else if result.abstained ||
      (match result.judgment with
        | .classify topP => less topP (.finite (1 / 2))
        | .evaluate => false) then tier0Results[index]?
  else some result

/-- What Tier 1 comes to. Anything thrown on the way is an error. -/
def judgeTier1 (tier0Results : List JudgmentProposition)
    (tier1 : Except String (List JudgmentProposition)) :
    Except String (List (Option JudgmentProposition)) := do
  let tier1Results ← tier1
  let mapped := tier1Results.mapIdx (overrideTier1 queries tier0Results)
  if !(← chargeBatch gate mapped) then .ok (tier0Results.map some)
  else if mapped.all costReported then .ok mapped
  else .error "Proposition is missing a valid ResourceCost"

/-- The Tier-3 fallback, with the veto on every floor query. -/
def judgeTier3 (tier3Results : List JudgmentProposition) : List (Option JudgmentProposition) :=
  tier3Results.mapIdx fun index result =>
    some (if isSafetyFloor queries[index]? then failClosed result else result)

/-- Judge a batch, from what the tiers answer. -/
def judge (enabled : Bool) (tier0 : Except String (List JudgmentProposition))
    (tier1 : Option (Except String (List JudgmentProposition)))
    (tier3 : Except String (List JudgmentProposition)) :
    Except String (List (Option JudgmentProposition)) := do
  let tier0Results ← tier0
  match tier1 with
  | none => .ok (tier0Results.map some)
  | some tier1 =>
    if !enabled then .ok (tier0Results.map some)
    else
      match judgeTier1 gate queries tier0Results tier1 with
      | .ok results => .ok results
      | .error _ => do
        let tier3Results ← tier3
        .ok (judgeTier3 queries tier3Results)

end Judge

end Senars.SystemOne
