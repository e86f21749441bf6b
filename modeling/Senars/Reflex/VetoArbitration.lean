/-
This file is the default arbitration between reflex proposals and derivations,
`NalVetoArbitration`: the best proposal acts, unless a derivation says that its
action is a trap, and then the best proposal that no derivation says it of.

Whether a derivation vetoes an action is asked through a memo that outlives the
call. A question is filed under a text that joins the derivation's action, its
frequency, its confidence and the proposed action, so two questions can have one
text. Where no two questions of a run with different answers do, every decision
is the one the predicate itself gives. How a number is written into the text is a
parameter.
-/

import Senars.Library.JsNumber
import Senars.Library.Lists
import Senars.Unify.LruCache

namespace Senars.Reflex

open Library Library.JsNumber Unify

/-! ### Proposals and derivations -/

/-- What a reflex proposes. -/
structure ActionProposal where
  action : String
  value : JsNumber
  confidence : JsNumber
  deriving DecidableEq

/-- What a derivation says of an action: how often it turns out well, and how sure that is. -/
structure NALDerivation where
  action : String
  f : JsNumber
  c : JsNumber
  source : String
  deriving DecidableEq

inductive DecisionSource where
  | reflex | nal | none
  deriving DecidableEq

structure NegotiationDecision where
  action : Option String
  actionExecuted : Option String
  vetoedBy : Option String
  confidence : JsNumber
  source : DecisionSource
  arbitration : String
  deriving DecidableEq

def expectedValue (proposal : ActionProposal) : JsNumber := proposal.value * proposal.confidence

/-- The proposal of the greatest expected value, the first of several. -/
def bestOf (proposals : List ActionProposal) : Option ActionProposal :=
  proposals.foldl (fun best proposal =>
    match best with
    | none => some proposal
    | some found =>
      if less (expectedValue found) (expectedValue proposal) then some proposal else best) none

/-- The decision that nothing acts. -/
def noDecision (arbitration : String) : NegotiationDecision where
  action := none
  actionExecuted := none
  vetoedBy := none
  confidence := 0
  source := .none
  arbitration

/-! ### The veto -/

/-- A question to the memo: does this derivation veto this action? -/
structure VetoQuestion where
  derivation : NALDerivation
  proposedAction : String
  deriving DecidableEq

section Arbitration

variable (numberText : JsNumber → String) (nalVetoThreshold reflexThreshold : JsNumber)

/-- The predicate the memo stands for. -/
def VetoQuestion.answer (question : VetoQuestion) : Bool :=
  question.derivation.action == question.proposedAction &&
    less question.derivation.f (.finite (3 / 10)) &&
    lessEq nalVetoThreshold question.derivation.c

/-- The text a question is filed under. -/
def VetoQuestion.key (question : VetoQuestion) : String :=
  question.derivation.action ++ "|" ++ numberText question.derivation.f ++ "|" ++
    numberText question.derivation.c ++ "|" ++ question.proposedAction

/-- The memo's capacity. -/
def vetoMemoCap : Nat := 10000

/-- Ask a question: the memo's answer where it has one, and else the predicate's, which the memo
then keeps. -/
def isVetoingAction (memo : LruCache Bool) (question : VetoQuestion) : Bool × LruCache Bool :=
  match memo.get (question.key numberText) with
  | (some existing, memo) => (existing, memo)
  | (none, memo) =>
    let created := question.answer nalVetoThreshold
    (created, memo.set (question.key numberText) created)

/-- The first derivation that vetoes an action. The derivations after it are not asked about. -/
def findVetoing (proposedAction : String) :
    LruCache Bool → List NALDerivation → Option NALDerivation × LruCache Bool
  | memo, [] => (none, memo)
  | memo, derivation :: rest =>
    match isVetoingAction numberText nalVetoThreshold memo ⟨derivation, proposedAction⟩ with
    | (true, memo) => (some derivation, memo)
    | (false, memo) => findVetoing proposedAction memo rest

/-- The proposals whose action no derivation vetoes. -/
def unvetoed (derivations : List NALDerivation) :
    LruCache Bool → List ActionProposal → List ActionProposal × LruCache Bool
  | memo, [] => ([], memo)
  | memo, proposal :: rest =>
    let (trap, memo) := findVetoing numberText nalVetoThreshold proposal.action memo derivations
    let (others, memo) := unvetoed derivations memo rest
    (if trap.isSome then others else proposal :: others, memo)

/-- Arbitrate between proposals and derivations. -/
def decide (memo : LruCache Bool) (reflexProposals : List ActionProposal)
    (nalDerivations : List NALDerivation) : NegotiationDecision × LruCache Bool :=
  match bestOf reflexProposals with
  | none => (noDecision "nal-veto", memo)
  | some bestReflex =>
    if less (expectedValue bestReflex) reflexThreshold then
      ({ noDecision "nal-veto" with vetoedBy := some "below-threshold" }, memo)
    else
      match findVetoing numberText nalVetoThreshold bestReflex.action memo nalDerivations with
      | (none, memo) =>
        ({ action := some bestReflex.action
           actionExecuted := some bestReflex.action
           vetoedBy := none
           confidence := bestReflex.confidence
           source := .reflex
           arbitration := "nal-veto" }, memo)
      | (some trap, memo) =>
        let (left, memo) := unvetoed numberText nalVetoThreshold nalDerivations memo reflexProposals
        let fallback := bestOf left
        ({ action := some bestReflex.action
           actionExecuted := fallback.map (·.action)
           vetoedBy := some ("nal-" ++ trap.source)
           confidence := (fallback.map (·.confidence)).getD trap.c
           source := .nal
           arbitration := "nal-veto" }, memo)

/-- The arguments of one call. -/
structure DecideCall where
  reflexProposals : List ActionProposal
  nalDerivations : List NALDerivation

/-- The decisions of a sequence of calls on one arbitration. -/
def decideAll : LruCache Bool → List DecideCall → List NegotiationDecision
  | _, [] => []
  | memo, call :: rest =>
    let (decision, memo) := decide numberText nalVetoThreshold reflexThreshold memo
      call.reflexProposals call.nalDerivations
    decision :: decideAll memo rest

/-! ### What a run asks -/

/-- The questions a search asks: those up to the first derivation that vetoes the action. -/
def searchQuestions (proposedAction : String) : List NALDerivation → List VetoQuestion
  | [] => []
  | derivation :: rest =>
    let question : VetoQuestion := ⟨derivation, proposedAction⟩
    question ::
      if question.answer nalVetoThreshold then [] else searchQuestions proposedAction rest

/-- The derivation a search is for, by the predicate itself. -/
def trapFor (derivations : List NALDerivation) (proposedAction : String) : Option NALDerivation :=
  derivations.find? fun derivation =>
    VetoQuestion.answer nalVetoThreshold ⟨derivation, proposedAction⟩

/-- The questions a call asks: about the best proposal, and about every proposal where a
derivation vetoes the best. -/
def DecideCall.questions (call : DecideCall) : List VetoQuestion :=
  match bestOf call.reflexProposals with
  | none => []
  | some bestReflex =>
    if less (expectedValue bestReflex) reflexThreshold then []
    else
      searchQuestions nalVetoThreshold bestReflex.action call.nalDerivations ++
        if (trapFor nalVetoThreshold call.nalDerivations bestReflex.action).isSome then
          call.reflexProposals.flatMap fun proposal =>
            searchQuestions nalVetoThreshold proposal.action call.nalDerivations
        else []

/-- No two of the questions have one text and different answers. -/
def Separates (questions : List VetoQuestion) : Prop :=
  ∀ first ∈ questions, ∀ second ∈ questions, first.key numberText = second.key numberText →
    first.answer nalVetoThreshold = second.answer nalVetoThreshold

/-- Everything the memo has is the answer to one of the questions. -/
def Remembers (questions : List VetoQuestion) (memo : LruCache Bool) : Prop :=
  ∀ key answer, memo.Holds key answer →
    ∃ question ∈ questions,
      question.key numberText = key ∧ question.answer nalVetoThreshold = answer

/-! ### The memo answers as the predicate does -/

section Memo

variable {numberText nalVetoThreshold reflexThreshold}
variable {questions : List VetoQuestion} {memo : LruCache Bool}

section

variable (separates : Separates numberText nalVetoThreshold questions)

include separates

theorem isVetoingAction_spec (remembers : Remembers numberText nalVetoThreshold questions memo)
    {question} (asked : question ∈ questions) :
    (isVetoingAction numberText nalVetoThreshold memo question).1 =
        question.answer nalVetoThreshold ∧
      Remembers numberText nalVetoThreshold questions
        (isVetoingAction numberText nalVetoThreshold memo question).2 := by
  have found := LruCache.get_fst memo (question.key numberText)
  have kept : Remembers numberText nalVetoThreshold questions
      (memo.get (question.key numberText)).2 :=
    fun key answer holds => remembers key answer (LruCache.holds_get.mp holds)
  unfold isVetoingAction
  rcases read : memo.get (question.key numberText) with ⟨_ | existing, next⟩
  · rw [read] at kept
    refine ⟨rfl, fun key answer holds => ?_⟩
    rcases LruCache.holds_set holds with ⟨rfl, rfl⟩ | before
    · exact ⟨question, asked, rfl, rfl⟩
    · exact kept key answer before
  · rw [read] at found kept
    obtain ⟨earlier, earlierAsked, sameKey, earlierAnswer⟩ :=
      remembers (question.key numberText) existing found.symm
    exact ⟨earlierAnswer.symm.trans (separates earlier earlierAsked question asked sameKey), kept⟩

theorem findVetoing_spec (proposedAction : String) (derivations : List NALDerivation)
    (asked : ∀ question ∈ searchQuestions nalVetoThreshold proposedAction derivations,
      question ∈ questions) (remembers : Remembers numberText nalVetoThreshold questions memo) :
    (findVetoing numberText nalVetoThreshold proposedAction memo derivations).1 =
        trapFor nalVetoThreshold derivations proposedAction ∧
      Remembers numberText nalVetoThreshold questions
        (findVetoing numberText nalVetoThreshold proposedAction memo derivations).2 := by
  induction derivations generalizing memo with
  | nil => exact ⟨rfl, remembers⟩
  | cons derivation rest ih =>
    simp only [searchQuestions] at asked
    obtain ⟨answered, kept⟩ := isVetoingAction_spec separates remembers
      (asked _ (List.mem_cons_self ..))
    rw [findVetoing, trapFor, List.find?_cons]
    rcases step : isVetoingAction numberText nalVetoThreshold memo ⟨derivation, proposedAction⟩
      with ⟨answer, next⟩
    rw [step] at answered kept
    rw [← answered]
    cases answer with
    | true => exact ⟨rfl, kept⟩
    | false =>
      refine ih (fun question member => asked question ?_) kept
      rw [← answered]
      exact List.mem_cons_of_mem _ member

theorem unvetoed_spec (derivations : List NALDerivation) (proposals : List ActionProposal)
    (asked : ∀ proposal ∈ proposals,
      ∀ question ∈ searchQuestions nalVetoThreshold proposal.action derivations,
        question ∈ questions) (remembers : Remembers numberText nalVetoThreshold questions memo) :
    (unvetoed numberText nalVetoThreshold derivations memo proposals).1 =
        proposals.filter (fun proposal =>
          (trapFor nalVetoThreshold derivations proposal.action).isNone) ∧
      Remembers numberText nalVetoThreshold questions
        (unvetoed numberText nalVetoThreshold derivations memo proposals).2 := by
  induction proposals generalizing memo with
  | nil => exact ⟨rfl, remembers⟩
  | cons proposal rest ih =>
    obtain ⟨found, kept⟩ := findVetoing_spec separates proposal.action derivations
      (asked proposal (List.mem_cons_self ..)) remembers
    obtain ⟨others, keptAfter⟩ := ih
      (fun other member => asked other (List.mem_cons_of_mem _ member)) kept
    simp only [unvetoed]
    refine ⟨?_, keptAfter⟩
    rw [found, others, List.filter_cons]
    cases trapFor nalVetoThreshold derivations proposal.action <;> rfl

end

/-! ### Decisions by the predicate -/

variable (nalVetoThreshold reflexThreshold)

/-- The decision the predicate itself gives. -/
def verdict (call : DecideCall) : NegotiationDecision :=
  match bestOf call.reflexProposals with
  | none => noDecision "nal-veto"
  | some bestReflex =>
    if less (expectedValue bestReflex) reflexThreshold then
      { noDecision "nal-veto" with vetoedBy := some "below-threshold" }
    else
      match trapFor nalVetoThreshold call.nalDerivations bestReflex.action with
      | none =>
        { action := some bestReflex.action
          actionExecuted := some bestReflex.action
          vetoedBy := none
          confidence := bestReflex.confidence
          source := .reflex
          arbitration := "nal-veto" }
      | some trap =>
        let fallback := bestOf (call.reflexProposals.filter fun proposal =>
          (trapFor nalVetoThreshold call.nalDerivations proposal.action).isNone)
        { action := some bestReflex.action
          actionExecuted := fallback.map (·.action)
          vetoedBy := some ("nal-" ++ trap.source)
          confidence := (fallback.map (·.confidence)).getD trap.c
          source := .nal
          arbitration := "nal-veto" }

variable {nalVetoThreshold reflexThreshold}

theorem decide_spec (separates : Separates numberText nalVetoThreshold questions)
    (call : DecideCall)
    (asked : ∀ question ∈ call.questions nalVetoThreshold reflexThreshold, question ∈ questions)
    (remembers : Remembers numberText nalVetoThreshold questions memo) :
    (decide numberText nalVetoThreshold reflexThreshold memo call.reflexProposals
        call.nalDerivations).1 = verdict nalVetoThreshold reflexThreshold call ∧
      Remembers numberText nalVetoThreshold questions
        (decide numberText nalVetoThreshold reflexThreshold memo call.reflexProposals
          call.nalDerivations).2 := by
  unfold decide verdict
  unfold DecideCall.questions at asked
  cases best : bestOf call.reflexProposals with
  | none => exact ⟨rfl, remembers⟩
  | some bestReflex =>
    simp only [best] at asked ⊢
    split
    · exact ⟨rfl, remembers⟩
    rename_i reaches
    rw [if_neg reaches] at asked
    obtain ⟨found, kept⟩ := findVetoing_spec separates bestReflex.action call.nalDerivations
      (fun question member => asked question (List.mem_append_left _ member)) remembers
    rcases step : findVetoing numberText nalVetoThreshold bestReflex.action memo
      call.nalDerivations with ⟨trap, next⟩
    rw [step] at found kept
    subst found
    cases vetoing : trapFor nalVetoThreshold call.nalDerivations bestReflex.action with
    | none => exact ⟨rfl, kept⟩
    | some trap =>
      rw [vetoing] at asked
      obtain ⟨left, keptAfter⟩ := unvetoed_spec separates call.nalDerivations
        call.reflexProposals (fun proposal member question search =>
          asked question (List.mem_append_right _
            (List.mem_flatMap.mpr ⟨proposal, member, search⟩))) kept
      simp only
      rw [left]
      exact ⟨rfl, keptAfter⟩

theorem decideAll_spec (separates : Separates numberText nalVetoThreshold questions)
    (calls : List DecideCall)
    (asked : ∀ call ∈ calls, ∀ question ∈ call.questions nalVetoThreshold reflexThreshold,
      question ∈ questions)
    (remembers : Remembers numberText nalVetoThreshold questions memo) :
    decideAll numberText nalVetoThreshold reflexThreshold memo calls =
      calls.map (verdict nalVetoThreshold reflexThreshold) := by
  induction calls generalizing memo with
  | nil => rfl
  | cons call rest ih =>
    obtain ⟨decision, kept⟩ := decide_spec separates call (asked call (List.mem_cons_self ..))
      remembers
    rw [List.map_cons, ← decision]
    exact congrArg _ (ih
      (fun other member => asked other (List.mem_cons_of_mem _ member)) kept)

/-! ### What the decisions are -/

variable (nalVetoThreshold) in
/-- A derivation of the call says that the action is a trap: it seldom turns out well, and that
is sure enough. -/
def DecideCall.Traps (call : DecideCall) (action : String) : Prop :=
  ∃ derivation ∈ call.nalDerivations, derivation.action = action ∧
    less derivation.f (.finite (3 / 10)) = true ∧ lessEq nalVetoThreshold derivation.c = true

theorem trapFor_eq_none {call : DecideCall} {action} :
    trapFor nalVetoThreshold call.nalDerivations action = none ↔
      ¬ call.Traps nalVetoThreshold action := by
  simp only [trapFor, List.find?_eq_none, DecideCall.Traps, VetoQuestion.answer, Bool.and_eq_true,
    beq_iff_eq, not_exists, not_and, and_assoc]

variable (nalVetoThreshold) in
/-- A decision does what the arbitration is for: no trap is executed, the best action is vetoed
only where it is a trap, and something acts where a proposal is not a trap. -/
structure DecideCall.Sound (call : DecideCall) (decision : NegotiationDecision) : Prop where
  executed : ∀ action, decision.actionExecuted = some action → ¬ call.Traps nalVetoThreshold action
  vetoed : ∀ action, decision.action = some action → ¬ call.Traps nalVetoThreshold action →
    decision.actionExecuted = some action ∧ decision.vetoedBy = none
  fallback : decision.action.isSome → ∀ proposal ∈ call.reflexProposals,
    ¬ call.Traps nalVetoThreshold proposal.action → decision.actionExecuted.isSome

theorem bestOf_step (proposals : List ActionProposal) (best : ActionProposal) :
    ∃ found ∈ best :: proposals, proposals.foldl (fun best proposal =>
      match best with
      | none => some proposal
      | some found =>
        if less (expectedValue found) (expectedValue proposal) then some proposal else best)
      (some best) = some found := by
  induction proposals generalizing best with
  | nil => exact ⟨best, List.mem_cons_self .., rfl⟩
  | cons proposal rest ih =>
    rw [List.foldl_cons]
    dsimp only
    split
    · obtain ⟨found, member, result⟩ := ih proposal
      exact ⟨found, List.mem_cons_of_mem _ member, result⟩
    · obtain ⟨found, member, result⟩ := ih best
      refine ⟨found, ?_, result⟩
      rcases List.mem_cons.mp member with rfl | later
      · exact List.mem_cons_self ..
      · exact List.mem_cons_of_mem _ (List.mem_cons_of_mem _ later)

theorem bestOf_mem {proposals best} (found : bestOf proposals = some best) : best ∈ proposals := by
  cases proposals with
  | nil => cases found
  | cons proposal rest =>
    obtain ⟨result, member, folded⟩ := bestOf_step rest proposal
    exact Option.some.inj (folded.symm.trans found) ▸ member

theorem bestOf_isSome {proposals proposal} (member : proposal ∈ proposals) :
    (bestOf proposals).isSome := by
  cases proposals with
  | nil => cases member
  | cons first rest =>
    obtain ⟨result, _, folded⟩ := bestOf_step rest first
    exact Option.isSome_of_eq_some folded

theorem sound_of_nothing (call : DecideCall) {decision} (unnamed : decision.action = none)
    (idle : decision.actionExecuted = none) :
    call.Sound nalVetoThreshold decision where
  executed action executed := by
    rw [idle] at executed
    cases executed
  vetoed action named := by
    rw [unnamed] at named
    cases named
  fallback named := by
    rw [unnamed] at named
    cases named

theorem verdict_sound (call : DecideCall) :
    call.Sound nalVetoThreshold (verdict nalVetoThreshold reflexThreshold call) := by
  unfold verdict
  cases best : bestOf call.reflexProposals with
  | none => exact sound_of_nothing call rfl rfl
  | some bestReflex =>
    simp only
    split
    · exact sound_of_nothing call rfl rfl
    cases trap : trapFor nalVetoThreshold call.nalDerivations bestReflex.action with
    | none =>
      refine ⟨?_, ?_, fun _ _ _ _ => rfl⟩
      · rintro action ⟨rfl⟩
        exact trapFor_eq_none.mp trap
      · rintro action ⟨rfl⟩ _
        exact ⟨rfl, rfl⟩
    | some trapping =>
      refine ⟨?_, ?_, ?_⟩
      · intro action executed
        obtain ⟨fallback, found, rfl⟩ := Option.map_eq_some_iff.mp executed
        have left := (List.mem_filter.mp (bestOf_mem found)).2
        exact trapFor_eq_none.mp (Option.isNone_iff_eq_none.mp left)
      · rintro action ⟨rfl⟩ free
        rw [trapFor_eq_none.mpr free] at trap
        cases trap
      · intro _ proposal member free
        rw [Option.isSome_map]
        refine bestOf_isSome (List.mem_filter.mpr ⟨member, ?_⟩)
        rw [trapFor_eq_none.mpr free]
        rfl

variable (numberText nalVetoThreshold reflexThreshold) in
/-- The questions of a sequence of calls. -/
def questionsOf (calls : List DecideCall) : List VetoQuestion :=
  calls.flatMap fun call => call.questions nalVetoThreshold reflexThreshold

/-- Where no two questions of a sequence of calls have one text and different answers, every
decision of the sequence is sound. -/
theorem decideAll_sound (calls : List DecideCall)
    (separates : Separates numberText nalVetoThreshold
      (questionsOf nalVetoThreshold reflexThreshold calls)) :
    List.Forall₂ (DecideCall.Sound nalVetoThreshold) calls
      (decideAll numberText nalVetoThreshold reflexThreshold (LruCache.new vetoMemoCap) calls) := by
  rw [decideAll_spec separates calls
    (fun call member question asked => List.mem_flatMap.mpr ⟨call, member, asked⟩)
    (fun key answer holds => absurd holds (LruCache.not_holds_new _ _ _))]
  exact List.forall₂_map_right_iff.mpr (List.forall₂_same.mpr fun call _ => verdict_sound call)

/-! ### Names without the mark -/

theorem separates_of_names {questions}
    (names : ∀ question ∈ questions, '|' ∉ question.derivation.action.toList)
    (unmarked : ∀ number, '|' ∉ (numberText number).toList)
    (known : Function.Injective numberText) : Separates numberText nalVetoThreshold questions := by
  intro first firstAsked second secondAsked same
  have chars := congrArg String.toList same
  simp only [VetoQuestion.key, String.toList_append, List.append_assoc] at chars
  obtain ⟨sameAction, chars⟩ := split_at_first_mark (names first firstAsked)
    (names second secondAsked) chars
  obtain ⟨sameFrequency, chars⟩ := split_at_first_mark (unmarked _) (unmarked _) chars
  obtain ⟨sameConfidence, sameProposed⟩ := split_at_first_mark (unmarked _) (unmarked _) chars
  unfold VetoQuestion.answer
  rw [String.toList_inj.mp sameAction, known (String.toList_inj.mp sameFrequency),
    known (String.toList_inj.mp sameConfidence), String.toList_inj.mp sameProposed]

end Memo

/-! ### Two questions with one text -/

/-- A question that is not a veto is filed under the text of one that is, and the trap of the
second call acts. -/
def clashingCalls : List DecideCall :=
  [{ reflexProposals := [⟨"a|0.1|0.9|a|0.1|0.9|a", 1, 1⟩]
     nalDerivations := [⟨"a", .finite (1 / 10), .finite (9 / 10), "nal"⟩] },
   { reflexProposals := [⟨"a|0.1|0.9|a", 1, 1⟩]
     nalDerivations := [⟨"a|0.1|0.9|a", .finite (1 / 10), .finite (9 / 10), "nal"⟩] }]

/-- The text of a number of tenths below one. -/
def tenthsText (number : JsNumber) : String :=
  if number = .finite (1 / 10) then "0.1" else if number = .finite (9 / 10) then "0.9" else "0.5"

end Arbitration

/-- A call whose best proposal is a trap, made twice. -/
def trappedCalls : List DecideCall :=
  let call : DecideCall :=
    { reflexProposals := [⟨"go", 1, 1⟩, ⟨"stay", 1, .finite (1 / 2)⟩]
      nalDerivations := [⟨"go", .finite (1 / 10), .finite (9 / 10), "nal"⟩] }
  [call, call]

theorem decideAll_sound_trapped :
    List.Forall₂ (DecideCall.Sound (.finite (4 / 5))) trappedCalls
      (decideAll tenthsText (.finite (4 / 5)) (.finite (3 / 10)) (LruCache.new vetoMemoCap)
        trappedCalls) :=
  decideAll_sound trappedCalls (by
    unfold Separates
    decide +kernel)

/-- The trap of the second call acts. -/
theorem trap_executed :
    ¬ ∀ numberText : JsNumber → String, numberText (.finite (1 / 10)) = "0.1" →
      numberText (.finite (9 / 10)) = "0.9" →
      ∀ (nalVetoThreshold reflexThreshold : JsNumber) (calls : List DecideCall),
        List.Forall₂ (DecideCall.Sound nalVetoThreshold) calls
          (decideAll numberText nalVetoThreshold reflexThreshold (LruCache.new vetoMemoCap)
            calls) := by
  intro always
  have sound := always tenthsText (by decide +kernel) (by decide +kernel) (.finite (4 / 5))
    (.finite (3 / 10)) clashingCalls
  obtain ⟨first, second, decided⟩ : ∃ first second, decideAll tenthsText (.finite (4 / 5))
      (.finite (3 / 10)) (LruCache.new vetoMemoCap) clashingCalls = [first, second] :=
    ⟨_, _, rfl⟩
  have executed : (decideAll tenthsText (.finite (4 / 5)) (.finite (3 / 10))
      (LruCache.new vetoMemoCap) clashingCalls).map (·.actionExecuted) =
        [some "a|0.1|0.9|a|0.1|0.9|a", some "a|0.1|0.9|a"] := by
    decide +kernel
  rw [decided] at sound executed
  obtain ⟨_, secondExecuted⟩ : first.actionExecuted = some "a|0.1|0.9|a|0.1|0.9|a" ∧
      second.actionExecuted = some "a|0.1|0.9|a" := by
    simpa using executed
  cases sound with
  | cons _ rest =>
    cases rest with
    | cons unsound _ =>
      exact unsound.executed _ secondExecuted
        ⟨_, List.mem_singleton_self _, rfl, by decide +kernel, by decide +kernel⟩

end Senars.Reflex
