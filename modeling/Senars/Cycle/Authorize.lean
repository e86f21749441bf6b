/-
This file is the authorize stage of a cycle: the derived candidates that are
vetoed, ranked and cut to the slots there are, and the tasks the seam sent, which
are charged one by one; what is left of both is committed.

A veto takes a candidate away before the cut, so a candidate that was behind the
cut may take the slot. The veto widens nothing where what moves up would have been
committed anyway.
-/

import Senars.Control.Budgets
import Senars.Kernel.Gate
import Senars.Library.Text
import Senars.Library.OrderedMap

namespace Senars.Cycle

open Library Library.JsNumber Kernel Control

/-! ### Ranking -/

/-- Numbers from the greatest down. Not a number is last. -/
def descending : Comparison JsNumber where
  le first second := decide (second = .nan) || lessEq second first
  total first second := by
    by_cases firstNumber : first = .nan
    · exact Or.inr (by simp [firstNumber])
    by_cases secondNumber : second = .nan
    · exact Or.inl (by simp [secondNumber])
    rcases lessEq_total firstNumber secondNumber with before | after
    · exact Or.inr (by simp [before])
    · exact Or.inl (by simp [after])
  trans first second third firstOrder secondOrder := by
    simp only [Bool.or_eq_true, decide_eq_true_eq] at firstOrder secondOrder ⊢
    rcases secondOrder with last | above
    · exact Or.inl last
    · rcases firstOrder with rfl | first
      · simp [lessEq] at above
      · exact Or.inr (lessEq_trans above first)

structure RankOptions where
  passes : JsNumber → Bool := fun _ => true
  limit : Option JsNumber := none

/-- The items that pass, from the greatest score down, ties as they came in, cut to the limit. -/
def rankBy {Item : Type} (items : List Item) (score : Item → JsNumber) (options : RankOptions) :
    List Item :=
  let keyed :=
    (descending.comap score).toSorted (items.filter fun item => options.passes (score item))
  match options.limit with
  | none => keyed
  | some limit => sliceTo keyed (JsNumber.max 0 limit)

structure RankingOptions where
  maxAdmissions : Option JsNumber := none
  minScore : Option JsNumber := none

def scoreDerivation (termString : String) (f c : JsNumber) : JsNumber :=
  let decisiveness := JsNumber.abs (f - .finite (1 / 2)) * 2
  let length : JsNumber := .finite (codeUnits termString).length
  let sizePenalty := JsNumber.min (.finite (3 / 10)) (length / 2000)
  c * decisiveness - sizePenalty

/-! ### Decisions -/

/-- What the decision port answers. -/
inductive DecisionResult where
  | classify (distribution : List (String × JsNumber)) (abstained : Bool)
  | evaluate (score : JsNumber) (abstained : Bool)
  | other

/-- A decision port, as the answers it gives: to the question which of some terms is admitted
first, and to the question of a veto about each candidate. No answer is a fault or a deadline. -/
structure DecisionPort where
  admissionOrder : List String → Option DecisionResult
  egressVeto : Nat → Option DecisionResult

structure EgressJudging where
  enabled : Bool
  maxCandidates : JsNumber
  vetoThreshold : JsNumber

section

variable {Task : Type} (termText : Task → String)
  (truth : Task → Option TermTruth)

def rankDerivations (results : List Task) (opts : RankingOptions) : List Task :=
  rankBy results
    (fun task =>
      match truth task with
      | some truth => scoreDerivation (termText task) truth.f truth.c
      | none => .finite (-1))
    { passes := fun score => lessEq (opts.minScore.getD 0) score
      limit := some (opts.maxAdmissions.getD 100) }

/-- The weight a classification gives a term: the last it gives. -/
def weightOf (distribution : List (String × JsNumber)) (term : String) : JsNumber :=
  ((OrderedMap.ofList distribution).get term).getD 0

/-- Rank, and reorder where the port has an answer. -/
def rankForAdmission (decision : Option DecisionPort) (results : List Task)
    (ranking : RankingOptions) : List Task :=
  let ranked := rankDerivations termText truth results ranking
  match decision with
  | none => ranked
  | some port =>
    if ranked.isEmpty then ranked
    else
      match port.admissionOrder (ranked.map termText) with
      | some (.classify distribution false) =>
        rankBy ranked (fun task => weightOf distribution (termText task)) {}
      | _ => ranked

/-- An answer that is a veto. One that does not arrive is none. -/
def vetoes (egress : EgressJudging) : Option DecisionResult → Bool
  | some (.evaluate score false) => !less score egress.vetoThreshold
  | _ => false

/-- The candidates that are vetoed. Only the first are judged. -/
def vetoed (egress : EgressJudging) (port : DecisionPort) (candidates : List Task) : List Task :=
  ((sliceTo candidates egress.maxCandidates).zipIdx.filter fun judged =>
    vetoes egress (port.egressVeto judged.2)).map (·.1)

variable [DecidableEq Task]

/-- The candidates the veto leaves. -/
def vetoAtEgress (egress : Option EgressJudging) (decision : Option DecisionPort)
    (candidates : List Task) : List Task :=
  match egress, decision with
  | some egress, some port =>
    if egress.enabled then
      let out := vetoed egress port candidates
      if out.isEmpty then candidates else candidates.filter (· ∉ out)
    else candidates
  | _, _ => candidates

/-- Charge for the tasks the seam sent, until one is refused. -/
def applySettled : ControlBudgets → List Task → List Task × ControlBudgets
  | budgets, [] => ([], budgets)
  | budgets, task :: rest =>
    match budgets.charge .proposalApplication 1 with
    | (true, budgets) =>
      let (applied, budgets) := applySettled budgets rest
      (task :: applied, budgets)
    | (false, budgets) => ([], budgets)

/-- What the stage commits, in order. -/
def authorize (egress : Option EgressJudging) (decision : Option DecisionPort)
    (ranking : RankingOptions) (budgets : ControlBudgets) (results settled : List Task) :
    List Task × ControlBudgets :=
  let derived := rankForAdmission termText truth decision
    (vetoAtEgress egress decision results) ranking
  let (applied, budgets) := applySettled budgets settled
  (derived ++ applied, budgets)

omit [DecidableEq Task] in
theorem applySettled_eq_take (budgets : ControlBudgets) (settled : List Task) :
    (applySettled budgets settled).1 = settled.take (budgets.left .proposalApplication) := by
  induction settled generalizing budgets with
  | nil => rw [List.take_nil]; rfl
  | cons task rest ih =>
    have facts := budgets.charge_one .proposalApplication
    unfold applySettled
    rcases outcome : budgets.charge .proposalApplication 1 with ⟨_ | _, charged⟩
    all_goals rw [outcome] at facts
    · have none : budgets.left .proposalApplication = 0 :=
        Nat.eq_zero_of_not_pos (of_decide_eq_false facts.1.symm)
      rw [none, List.take_zero]
    · have some : 0 < budgets.left .proposalApplication := of_decide_eq_true facts.1.symm
      show task :: (applySettled charged rest).1 = _
      rw [ih, facts.2, List.take_cons some]

/-! ### The cut -/

/-- How many of a number of candidates a limit admits. -/
def admissionSlots (limit : JsNumber) (count : Nat) : Nat :=
  match JsNumber.max 0 limit with
  | .nan => 0
  | .infinite _ => count
  | .finite stop => (stop.num.tdiv stop.den).toNat

theorem sliceTo_eq_take {Item limit} {items : List Item} {count} (fits : items.length ≤ count) :
    sliceTo items (JsNumber.max 0 limit) = items.take (admissionSlots limit count) := by
  unfold admissionSlots
  cases limit with
  | nan => rfl
  | infinite negative =>
    cases negative with
    | false => exact (List.take_of_length_le fits).symm
    | true => rfl
  | finite value =>
    rw [ofNat_eq, max_finite]
    have nonnegative : 0 ≤ ((((0 : ℕ) : ℚ) ⊔ value).num.tdiv (((0 : ℕ) : ℚ) ⊔ value).den) :=
      Int.tdiv_nonneg (Rat.num_nonneg.mpr (by simp)) (Int.natCast_nonneg _)
    simp only [sliceTo, if_neg (Int.not_lt.mpr nonnegative)]

variable {termText truth}

/-- The candidates that pass, in the order of their rank. -/
def inRankOrder (termText : Task → String) (truth : Task → Option TermTruth)
    (results : List Task) (opts : RankingOptions) : List Task :=
  rankDerivations termText truth results { opts with maxAdmissions := some (.infinite false) }

omit [DecidableEq Task] in
theorem rankDerivations_filter (keep : Task → Bool) (results : List Task) (opts : RankingOptions) :
    rankDerivations termText truth (results.filter keep) opts =
      ((inRankOrder termText truth results opts).filter keep).take
        (admissionSlots (opts.maxAdmissions.getD 100) results.length) := by
  have short : ∀ score : Task → JsNumber, ∀ passes : JsNumber → Bool,
      ((descending.comap score).toSorted
        ((results.filter keep).filter fun task => passes (score task))).length ≤
          results.length := by
    intro score passes
    rw [Comparison.length_toSorted]
    exact Nat.le_trans (List.length_filter_le _ _) (List.length_filter_le _ _)
  unfold rankDerivations rankBy
  dsimp only
  rw [sliceTo_eq_take (short _ _), List.filter_comm, Comparison.toSorted_filter]
  rfl

omit [DecidableEq Task] in
theorem rankDerivations_eq_take (results : List Task) (opts : RankingOptions) :
    rankDerivations termText truth results opts =
      (inRankOrder termText truth results opts).take
        (admissionSlots (opts.maxAdmissions.getD 100) results.length) := by
  have everything : rankDerivations termText truth (results.filter fun _ => true) opts = _ :=
    rankDerivations_filter (fun _ => true) results opts
  rwa [List.filter_true, List.filter_true] at everything

/-! ### With and without the veto -/

/-- The port has no say in the order. -/
def Unordered (decision : Option DecisionPort) : Prop :=
  ∀ port ∈ decision, ∀ space distribution,
    port.admissionOrder space ≠ some (.classify distribution false)

omit [DecidableEq Task] in
theorem rankForAdmission_unordered {decision} (unordered : Unordered decision)
    (results : List Task) (ranking : RankingOptions) :
    rankForAdmission termText truth decision results ranking =
      rankDerivations termText truth results ranking := by
  unfold rankForAdmission
  cases decision with
  | none => rfl
  | some port =>
    dsimp only
    split
    · rfl
    · split
      · rename_i distribution answer
        exact absurd answer (unordered port rfl _ _)
      · rfl

/-- The candidates the judge is against. -/
def opposed (egress : EgressJudging) (decision : Option DecisionPort) (results : List Task) :
    List Task :=
  match decision with
  | none => []
  | some port => vetoed egress port results

theorem vetoAtEgress_enabled (egress : EgressJudging) (decision : Option DecisionPort)
    (results : List Task) :
    vetoAtEgress (some { egress with enabled := true }) decision results =
      results.filter (· ∉ opposed egress decision results) := by
  cases decision with
  | none => simp [vetoAtEgress, opposed]
  | some port =>
    simp only [vetoAtEgress, if_true]
    split
    · rename_i none
      have nobody : opposed egress (some port) results = [] := List.isEmpty_iff.mp none
      simp [nobody]
    · rfl

theorem vetoAtEgress_disabled (egress : EgressJudging) (decision : Option DecisionPort)
    (results : List Task) :
    vetoAtEgress (some { egress with enabled := false }) decision results = results := by
  cases decision <;> rfl

/-- What moves up into the slots a veto frees would have been committed anyway. The first
candidates behind the cut that the judge is not against move up, as many as there are before the
cut that it is against. -/
def MovesUpCommitted (termText : Task → String) (truth : Task → Option TermTruth)
    (egress : EgressJudging) (decision : Option DecisionPort) (ranking : RankingOptions)
    (budgets : ControlBudgets) (results settled : List Task) : Prop :=
  let ranked := inRankOrder termText truth results ranking
  let slots := admissionSlots (ranking.maxAdmissions.getD 100) results.length
  let freed := (ranked.take slots).filter (· ∈ opposed egress decision results)
  let waiting := (ranked.drop slots).filter (· ∉ opposed egress decision results)
  ∀ task ∈ waiting.take freed.length,
    task ∈ ranked.take slots ∨ task ∈ (applySettled budgets settled).1

/-- With the veto the stage commits nothing that it does not commit without, exactly where what
moves up would have been committed anyway. -/
theorem authorize_subset_iff {decision : Option DecisionPort} (unordered : Unordered decision)
    (egress : EgressJudging) (ranking : RankingOptions) (budgets : ControlBudgets)
    (results settled : List Task) :
    (∀ task ∈ (authorize termText truth (some { egress with enabled := true }) decision ranking
        budgets results settled).1,
      task ∈ (authorize termText truth (some { egress with enabled := false }) decision ranking
        budgets results settled).1) ↔
      MovesUpCommitted termText truth egress decision ranking budgets results settled := by
  have withVeto : (authorize termText truth (some { egress with enabled := true }) decision ranking
      budgets results settled).1 =
        ((inRankOrder termText truth results ranking).filter
          (· ∉ opposed egress decision results)).take
            (admissionSlots (ranking.maxAdmissions.getD 100) results.length) ++
          (applySettled budgets settled).1 := by
    simp only [authorize, rankForAdmission_unordered unordered, vetoAtEgress_enabled]
    rw [rankDerivations_filter]
  have without : (authorize termText truth (some { egress with enabled := false }) decision ranking
      budgets results settled).1 =
        (inRankOrder termText truth results ranking).take
            (admissionSlots (ranking.maxAdmissions.getD 100) results.length) ++
          (applySettled budgets settled).1 := by
    simp only [authorize, rankForAdmission_unordered unordered, vetoAtEgress_disabled]
    rw [rankDerivations_eq_take]
  rw [withVeto, without, take_filter]
  simp only [MovesUpCommitted, List.mem_append, decide_not, Bool.not_not]
  constructor
  · intro narrows task moved
    exact narrows task (Or.inl (Or.inr moved))
  · rintro committed task ((kept | moved) | applied)
    · exact Or.inl (List.mem_filter.mp kept).1
    · exact committed task moved
    · exact Or.inr applied

end

/-! ### A veto that lets another in -/

/-- Two conclusions, the first the better. -/
def pairTruth (task : Nat) : Option TermTruth :=
  some ⟨1, if task = 0 then .finite (9 / 10) else .finite (8 / 10)⟩

/-- A port that is against the first candidate and has no opinion of the order. -/
def againstFirst : DecisionPort where
  admissionOrder _ := none
  egressVeto index := some (.evaluate (if index = 0 then 1 else 0) false)

def judgingAll : EgressJudging where
  enabled := true
  maxCandidates := 8
  vetoThreshold := .finite (1 / 2)

theorem unordered_againstFirst : Unordered (some againstFirst) := by
  intro port found space distribution answer
  cases found
  cases answer

/-- Budgets nothing has been spent of. -/
def freshBudgets : ControlBudgets where
  gate :=
    { budget := ⟨100, 10, 100, 10, none, zeroConsumed⟩
      scopes := fun _ => none }
  overrides :=
    { limit := fun _ => none
      positive := fun _ _ found => by cases found }

theorem authorize_subset_iff_pair :
    (∀ task ∈ (authorize (fun _ => "term") pairTruth (some { judgingAll with enabled := true })
        (some againstFirst) {} freshBudgets [0, 1] []).1,
      task ∈ (authorize (fun _ => "term") pairTruth (some { judgingAll with enabled := false })
        (some againstFirst) {} freshBudgets [0, 1] []).1) ↔
      MovesUpCommitted (fun _ => "term") pairTruth judgingAll (some againstFirst) {} freshBudgets
        [0, 1] [] :=
  authorize_subset_iff unordered_againstFirst judgingAll {} freshBudgets [0, 1] []

/-- With one slot the vetoed conclusion makes room for the other. -/
theorem veto_widens :
    ¬ ∀ (termText : Nat → String) (truth : Nat → Option TermTruth) (egress : EgressJudging)
        (decision : Option DecisionPort), Unordered decision →
      ∀ (ranking : RankingOptions) (budgets : ControlBudgets) (results settled : List Nat),
        ∀ task ∈ (authorize termText truth (some { egress with enabled := true }) decision ranking
            budgets results settled).1,
          task ∈ (authorize termText truth (some { egress with enabled := false }) decision
            ranking budgets results settled).1 := by
  intro always
  have narrows := always (fun _ => "term") pairTruth judgingAll (some againstFirst)
    unordered_againstFirst { maxAdmissions := some 1 } freshBudgets [0, 1] [] 1
    (by decide +kernel)
  revert narrows
  decide +kernel

end Senars.Cycle
