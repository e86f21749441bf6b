/-
This file is the decider: the queries of a request are judged chunk by chunk, every
answer is routed to a band, and the most restrictive band of the answers is the
decision. Judging stops after a chunk in which a safety-floor query scores the
threshold of the top band.

The judge is an argument, and so is what the contrastive memory scores the context.
What only the composite score and the provenance read is left out, and so are the
reasons the single propositions give for abstaining.
-/

import Senars.SystemOne.Dispatcher

namespace Senars.SystemOne

open Library Library.JsNumber

/-! ### Chunks -/

/-- `items.slice(i, i + step)` for `i` from zero on, in steps. -/
def chunkEvery {Item : Type} (step : Nat) : Nat → List Item → List (List Item)
  | _, [] => []
  | 0, _ => []
  | fuel + 1, items => items.take step :: chunkEvery step fuel (items.drop step)

/-- Cut a list into chunks. The index of an unending step, and of a step that is not a number,
passes the end after one slice. -/
def chunk {Item : Type} (items : List Item) (size : JsNumber) : List (List Item) :=
  match JsNumber.max 1 (floor size) with
  | .finite step => chunkEvery step.num.toNat items.length items
  | step => if items.isEmpty then [] else [sliceTo items step]

/-! ### Bands -/

inductive BandDecision where
  | act | review | block | abstain
  deriving DecidableEq

def bandOrdinal : BandDecision → Int
  | .act => 2
  | .review => 1
  | .block => 0
  | .abstain => -1

/-- The bands a score routes to. -/
inductive Rung where
  | act | review | block
  deriving DecidableEq

def Rung.band : Rung → BandDecision
  | .act => .act
  | .review => .review
  | .block => .block

/-- The rungs, most permissive first. -/
def rungs : List Rung := [.act, .review, .block]

/-- One threshold per rung. -/
abbrev ConfidenceBands := Rung → JsNumber

def defaultConfidenceBands : ConfidenceBands
  | .act => .finite (8 / 10)
  | .review => .finite (5 / 10)
  | .block => 0

/-- The first rung whose threshold is reached, else block. -/
def routeConfidence (p : JsNumber) (bands : ConfidenceBands) : Rung :=
  (rungs.find? fun rung => lessEq (bands rung) p).getD .block

/-- `ConfidenceRouter.route`, where `confidence` is the top option's probability or the score. -/
def route (bands : ConfidenceBands) (abstained : Bool) (confidence : Option JsNumber) :
    BandDecision :=
  if abstained then .abstain else (routeConfidence (confidence.getD 0) bands).band

/-- The band of one answer. -/
def verdictBand (bands : ConfidenceBands) : Option JudgmentProposition → BandDecision
  | none => .abstain
  | some proposition =>
    match proposition.judgment with
    | .classify topP => route bands proposition.abstained (some topP)
    | .evaluate => route bands proposition.abstained proposition.score

/-! ### Judging the chunks -/

/-- A query of a request, with what only the judge reads of it. -/
structure DecideQuery (Details : Type) where
  query : JudgmentQuery
  details : Details
  deriving DecidableEq

/-- The answer's score is at least the threshold of the top band. -/
def reachesAct (proposition : JudgmentProposition) : Bool :=
  match proposition.score with
  | some score => lessEq (defaultConfidenceBands .act) score
  | none => false

section Judging

variable {Details : Type}

/-- Some safety-floor query of the slice was answered, and scores the top band. The score of an
answer the batch does not have cannot be read. -/
def shortCircuits : List (DecideQuery Details) → List JudgmentProposition → Except String Bool
  | [], _ => .ok false
  | query :: slice, batch =>
    if isSafetyFloor (some query.query) then
      match batch.head? with
      | none => .error "TypeError"
      | some proposition =>
        if !proposition.abstained && reachesAct proposition then .ok true
        else shortCircuits slice batch.tail
    else shortCircuits slice batch.tail

/-- Judge chunk after chunk, up to the first that short-circuits. -/
def judgeChunks (judge : List (DecideQuery Details) → Except String (List JudgmentProposition)) :
    List (List (DecideQuery Details)) → Except String (List JudgmentProposition)
  | [] => .ok []
  | slice :: chunks => do
    let batch ← judge slice
    if ← shortCircuits slice batch then .ok batch
    else do
      let propositions ← judgeChunks judge chunks
      .ok (batch ++ propositions)

/-! ### The decision -/

structure HeadVerdict (Details : Type) where
  query : DecideQuery Details
  proposition : Option JudgmentProposition
  band : BandDecision
  abstained : Bool
  skipped : Bool

/-- A safety-floor evaluation that scores the top band blocks, whatever the router says. -/
def vetoed (query : JudgmentQuery) : Option JudgmentProposition → Bool
  | none => false
  | some proposition =>
    !proposition.abstained && decide (proposition.judgment = .evaluate) &&
      isSafetyFloor (some query) && reachesAct proposition

def headVerdict (bands : ConfidenceBands) (query : DecideQuery Details)
    (proposition : Option JudgmentProposition) : HeadVerdict Details where
  query := query
  proposition := proposition
  band := if vetoed query.query proposition then .block else verdictBand bands proposition
  abstained := (proposition.map (·.abstained)).getD true
  skipped := proposition.isNone

/-- The more restrictive of two bands. -/
def restrict (mostRestrictive band : BandDecision) : BandDecision :=
  if bandOrdinal band < bandOrdinal mostRestrictive then band else mostRestrictive

inductive AbstainReason where
  | allHeadsAbstained | outOfDomain
  deriving DecidableEq

structure DecideResult (Details : Type) where
  verdicts : List (HeadVerdict Details)
  band : BandDecision
  abstained : Bool
  abstainReason : Option AbstainReason

/-- What `createDecider` is given. -/
structure Decider (Details : Type) where
  judge : List (DecideQuery Details) → Except String (List JudgmentProposition)
  router : Option ConfidenceBands
  maxBatchSize : Option JsNumber

/-- Decide on the queries, where the contrastive memory scores the context so. -/
def Decider.decide (decider : Decider Details) (queries : List (DecideQuery Details))
    (contrastive : Option JsNumber) : Except String (DecideResult Details) := do
  let bands := decider.router.getD defaultConfidenceBands
  let chunkSize := JsNumber.max 1 (decider.maxBatchSize.getD 64)
  let propositions ← judgeChunks decider.judge (chunk queries chunkSize)
  let verdicts := queries.mapIdx fun index query => headVerdict bands query propositions[index]?
  let evaluated := verdicts.filter (!·.skipped)
  let nonAbstained := evaluated.filter (!·.abstained)
  let abstained := evaluated.isEmpty || nonAbstained.isEmpty ||
    (contrastive.map (less · (.finite (1 / 10)))).getD false
  .ok
    { verdicts
      band := (evaluated.map (·.band)).foldl restrict .act
      abstained
      abstainReason :=
        if !abstained then none
        else some (if nonAbstained.isEmpty then .allHeadsAbstained else .outOfDomain) }

end Judging

end Senars.SystemOne
