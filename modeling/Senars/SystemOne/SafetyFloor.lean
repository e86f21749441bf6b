/-
This file says when the dispatcher's safety floor holds.

The veto is written into the list Tier 1 gave and into the one Tier 3 gives. It is
not written into Tier 0's, which is what a refused charge returns; and a list is
returned at the length the tier gave it, so a query a tier left out has no entry.
-/

import Mathlib.Data.List.Basic
import Senars.SystemOne.Dispatcher

namespace Senars.SystemOne

open Library

/-! ### The floor -/

/-- Tier 1 threw, gave no result for the query at this index, or abstained on it. -/
def Unanswered (tier1 : Except String (List JudgmentProposition)) (index : Nat) : Prop :=
  match tier1 with
  | .error _ => True
  | .ok results => ∀ result, results[index]? = some result → result.abstained = true

/-- The proposition is the fail-closed veto. -/
def Vetoes (proposition : JudgmentProposition) : Prop :=
  proposition.score = some safetyFloorVetoScore ∧ proposition.abstained = false ∧
    proposition.tier = .tier1

/-- Every floor query Tier 1 did not answer has the veto among these propositions. -/
def VetoesFloor (queries : List JudgmentQuery) (tier1 : Except String (List JudgmentProposition))
    (result : List (Option JudgmentProposition)) : Prop :=
  ∀ index query, queries[index]? = some query → isSafetyFloor (some query) = true →
    Unanswered tier1 index →
    ∃ proposition, result[index]? = some (some proposition) ∧ Vetoes proposition

/-- One proposition per query, and the veto on every floor query Tier 1 did not answer. -/
structure FailsClosed (queries : List JudgmentQuery)
    (tier1 : Except String (List JudgmentProposition))
    (result : List (Option JudgmentProposition)) : Prop where
  length_eq : result.length = queries.length
  none_notMem : none ∉ result
  vetoes : VetoesFloor queries tier1 result

theorem failClosed_vetoes (proposition : JudgmentProposition) : Vetoes (failClosed proposition) :=
  ⟨rfl, rfl, rfl⟩

/-- The floor holds where the tier whose list is returned answers every query and, if that is
Tier 0 because the charge is refused, gives the veto itself. -/
def FloorCondition (gate : Option BudgetGate) (queries : List JudgmentQuery)
    (tier0Results : List JudgmentProposition) (tier1 : Except String (List JudgmentProposition))
    (tier3Results : List JudgmentProposition) : Prop :=
  match tier1 with
  | .error _ => tier3Results.length = queries.length
  | .ok tier1Results =>
    let mapped := tier1Results.mapIdx (overrideTier1 queries tier0Results)
    if chargeBatch gate mapped = .ok false then
      tier0Results.length = queries.length ∧
        VetoesFloor queries tier1 (tier0Results.map some)
    else if mapped.all costReported then tier1Results.length = queries.length
    else tier3Results.length = queries.length

/-! ### Whose list is returned -/

section Lists

variable {gate : Option BudgetGate} {queries : List JudgmentQuery}
  {tier0Results tier1Results tier3Results : List JudgmentProposition}
  {tier1 : Except String (List JudgmentProposition)}

theorem failsClosed_judgeTier3 :
    FailsClosed queries tier1 (judgeTier3 queries tier3Results) ↔
      tier3Results.length = queries.length := by
  refine ⟨fun holds => ?_, fun length => ⟨?_, ?_, fun index query at' floor _ => ?_⟩⟩
  · rw [← holds.length_eq, judgeTier3, List.length_mapIdx]
  · rw [judgeTier3, List.length_mapIdx, length]
  · simp [judgeTier3, List.mem_mapIdx]
  · have inside : index < tier3Results.length := by
      rw [length]
      exact (List.getElem?_eq_some_iff.mp at').1
    refine ⟨failClosed tier3Results[index], ?_, failClosed_vetoes _⟩
    rw [judgeTier3, List.getElem?_mapIdx, List.getElem?_eq_getElem inside, Option.map_some, at',
      if_pos floor]

theorem failsClosed_tier0 :
    FailsClosed queries tier1 (tier0Results.map some) ↔
      tier0Results.length = queries.length ∧
        VetoesFloor queries tier1 (tier0Results.map some) := by
  refine ⟨fun holds => ⟨?_, holds.vetoes⟩, fun holds => ⟨?_, ?_, holds.2⟩⟩
  · rw [← holds.length_eq, List.length_map]
  · rw [List.length_map, holds.1]
  · simp

theorem failsClosed_mapped
    (reported : (tier1Results.mapIdx (overrideTier1 queries tier0Results)).all costReported) :
    FailsClosed queries (.ok tier1Results)
        (tier1Results.mapIdx (overrideTier1 queries tier0Results)) ↔
      tier1Results.length = queries.length := by
  refine ⟨fun holds => ?_, fun length => ⟨?_, ?_, fun index query at' floor unanswered => ?_⟩⟩
  · rw [← holds.length_eq, List.length_mapIdx]
  · rw [List.length_mapIdx, length]
  · intro missing
    exact absurd (List.all_eq_true.mp reported none missing) (by simp [costReported])
  · have inside : index < tier1Results.length := by
      rw [length]
      exact (List.getElem?_eq_some_iff.mp at').1
    have abstained := unanswered _ (List.getElem?_eq_getElem inside)
    refine ⟨failClosed tier1Results[index], ?_, failClosed_vetoes _⟩
    rw [List.getElem?_mapIdx, List.getElem?_eq_getElem inside, Option.map_some, overrideTier1, at',
      abstained, floor]
    rfl

theorem not_reported_of_error {mapped message} (failed : chargeBatch gate mapped = .error message) :
    mapped.all costReported = false := by
  cases gate with
  | none => exact absurd failed (by rintro ⟨⟩)
  | some granted =>
    unfold chargeBatch at failed
    simp only at failed
    split at failed
    · rename_i missing
      exact List.all_eq_false.mpr ⟨none, missing, by simp [costReported]⟩
    · exact absurd failed (by rintro ⟨⟩)

end Lists

/-- An enabled dispatcher with a Tier-1 manifold returns one proposition per query, with the veto
on every floor query Tier 1 did not answer, if and only if the condition holds of what the tiers
and the gate answer. -/
theorem judge_failsClosed_iff (gate : Option BudgetGate) (queries : List JudgmentQuery)
    (tier0Results : List JudgmentProposition) (tier1 : Except String (List JudgmentProposition))
    (tier3Results : List JudgmentProposition) :
    ∃ result, judge gate queries true (.ok tier0Results) (some tier1) (.ok tier3Results) =
        .ok result ∧
      (FailsClosed queries tier1 result ↔
        FloorCondition gate queries tier0Results tier1 tier3Results) := by
  cases tier1 with
  | error message => exact ⟨judgeTier3 queries tier3Results, rfl, failsClosed_judgeTier3⟩
  | ok tier1Results =>
    simp only [FloorCondition]
    cases charged : chargeBatch gate
        (tier1Results.mapIdx (overrideTier1 queries tier0Results)) with
    | error message =>
      refine ⟨judgeTier3 queries tier3Results, ?_, ?_⟩
      · simp only [judge, judgeTier1, charged, bind, Except.bind, Bool.not_true,
          Bool.false_eq_true, if_false]
      · rw [if_neg (by simp), if_neg (by simp [not_reported_of_error charged])]
        exact failsClosed_judgeTier3
    | ok granted =>
      cases granted with
      | false =>
        refine ⟨tier0Results.map some, ?_, ?_⟩
        · simp only [judge, judgeTier1, charged, bind, Except.bind, Bool.not_true, Bool.not_false,
            Bool.false_eq_true, if_false, if_true]
        · rw [if_pos rfl]
          exact failsClosed_tier0
      | true =>
        rw [if_neg (by simp)]
        by_cases reported :
            (tier1Results.mapIdx (overrideTier1 queries tier0Results)).all costReported = true
        · refine ⟨tier1Results.mapIdx (overrideTier1 queries tier0Results), ?_, ?_⟩
          · simp only [judge, judgeTier1, charged, bind, Except.bind, Bool.not_true,
              Bool.false_eq_true, if_false, reported, if_true]
          · rw [if_pos reported]
            exact failsClosed_mapped reported
        · refine ⟨judgeTier3 queries tier3Results, ?_, ?_⟩
          · simp only [judge, judgeTier1, charged, bind, Except.bind, Bool.not_true,
              Bool.false_eq_true, if_false, reported]
          · rw [if_neg reported]
            exact failsClosed_judgeTier3

/-! ### A refused charge drops the veto -/

/-- A critical injection query. -/
def injectionQuery : JudgmentQuery := .evaluate .injection (some .critical)

/-- A Tier-0 default for it, and a Tier-1 result that abstains. -/
def tier0Default : JudgmentProposition where
  queryId := "q"
  backendId := "deterministic-tier0"
  judgment := .evaluate
  score := some (.finite (1 / 2))
  tier := .tier0
  abstained := false
  cost := some noCost

def tier1Abstention : JudgmentProposition where
  queryId := "q"
  backendId := "manifold"
  judgment := .evaluate
  score := some 0
  tier := .tier1
  abstained := true
  cost := some noCost

/-- Where the gate refuses the batch, the floor query gets the Tier-0 default. -/
theorem refused_charge_drops_veto :
    ¬ ∀ (gate : Option BudgetGate) (queries : List JudgmentQuery)
      (tier0Results : List JudgmentProposition)
      (tier1 : Except String (List JudgmentProposition))
      (tier3Results : List JudgmentProposition),
      ∃ result, judge gate queries true (.ok tier0Results) (some tier1) (.ok tier3Results) =
        .ok result ∧ FailsClosed queries tier1 result := by
  intro floor
  obtain ⟨result, returned, failsClosed⟩ := floor (some fun _ => false) [injectionQuery]
    [tier0Default] (.ok [tier1Abstention]) [tier0Default]
  have default : judge (some fun _ => false) [injectionQuery] true (.ok [tier0Default])
      (some (.ok [tier1Abstention])) (.ok [tier0Default]) = .ok [some tier0Default] := rfl
  rw [default] at returned
  cases returned
  obtain ⟨proposition, at', vetoes⟩ := failsClosed.vetoes 0 injectionQuery rfl rfl
    fun result isFirst => by
      cases isFirst
      rfl
  cases at'
  exact absurd vetoes.2.2 (by decide)

end Senars.SystemOne
