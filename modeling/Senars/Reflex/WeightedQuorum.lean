/-
This file is the arbitration by quorum. What reflexes expect of an action and what
derivations vote on it is tallied under the action, the actions whose tally reaches the
floor are sorted, from the greatest tally and else by name, and the first acts where the
best of its proposals reaches the threshold.

Nothing of this asks in what order the proposals and derivations came, but the confidence
that is reported, which is that of the first of several best proposals. Values and truths
are exact.
-/

import Senars.Cycle.Authorize
import Senars.Library.Tallies
import Senars.Reflex.VetoArbitration

namespace Senars.Reflex

open Library Library.JsNumber

/-! ### Sorting -/

/-- Compare by the second where the first ties. -/
def thenBy {Value : Type} (first second : Comparison Value) : Comparison Value where
  le one other := !first.le other one || first.le one other && second.le one other
  total one other := by
    have firstTotal := first.total one other
    have secondTotal := second.total one other
    grind
  trans one two three low high := by
    have firstTrans := first.trans
    have secondTrans := second.trans one two three
    have firstTotal := first.total
    grind

/-- From the greatest tally down, and else by name. -/
def bySupport : Comparison (String × JsNumber) :=
  thenBy (Cycle.descending.comap Prod.snd) (unitOrder.comap Prod.fst)

/-! ### The quorum -/

structure WeightedQuorum where
  floor : JsNumber := 0
  reflexThreshold : JsNumber := .finite (3 / 10)
  vetoThreshold : JsNumber := .finite (8 / 10)

namespace WeightedQuorum

/-- What a derivation adds to its action. -/
def vote (arbitration : WeightedQuorum) (derivation : NALDerivation) : JsNumber :=
  if lessEq (.finite (1 / 2)) derivation.f then derivation.c
  else if less derivation.f (.finite (3 / 10)) &&
      lessEq arbitration.vetoThreshold derivation.c then -derivation.c
  else 0

/-- The tally of each proposed action. -/
def quorum (arbitration : WeightedQuorum) (reflexProposals : List ActionProposal)
    (nalDerivations : List NALDerivation) : OrderedMap String JsNumber :=
  nalDerivations.foldl
    (fun quorum derivation =>
      if (quorum.get derivation.action).isNone then quorum
      else incrementCount quorum derivation.action (arbitration.vote derivation))
    (reflexProposals.foldl
      (fun quorum proposal =>
        incrementCount quorum proposal.action (expectedValue proposal)) .empty)

/-- The entry that is first of those that reach the floor. -/
def winner (arbitration : WeightedQuorum) (quorum : OrderedMap String JsNumber) :
    Option (String × JsNumber) :=
  (bySupport.toSorted (quorum.entries.filter fun entry => lessEq arbitration.floor entry.2)).head?

def decide (arbitration : WeightedQuorum) (reflexProposals : List ActionProposal)
    (nalDerivations : List NALDerivation) : NegotiationDecision :=
  if reflexProposals = [] then noDecision "weighted-quorum"
  else
    match arbitration.winner (arbitration.quorum reflexProposals nalDerivations) with
    | none => noDecision "weighted-quorum"
    | some (action, _) =>
      match bestOf (reflexProposals.filter (·.action = action)) with
      | none => noDecision "weighted-quorum"
      | some best =>
        if less (expectedValue best) arbitration.reflexThreshold then noDecision "weighted-quorum"
        else
          { action := some action
            actionExecuted := some action
            vetoedBy := none
            confidence := best.confidence
            source := .reflex
            arbitration := "weighted-quorum" }

/-! ### Tallies -/

variable (arbitration : WeightedQuorum)

theorem get_foldl_votes (derivations : List NALDerivation) (quorum : OrderedMap String JsNumber)
    (action : String) :
    (derivations.foldl
        (fun quorum derivation =>
          if (quorum.get derivation.action).isNone then quorum
          else incrementCount quorum derivation.action (arbitration.vote derivation))
        quorum).get action =
      (quorum.get action).map
        (sumFrom · (amountsOf (·.action) arbitration.vote action derivations)) := by
  induction derivations generalizing quorum with
  | nil =>
    rw [List.foldl_nil]
    cases quorum.get action <;> rfl
  | cons derivation rest ih =>
    rw [List.foldl_cons, ih, amountsOf_cons]
    by_cases same : derivation.action = action
    · subst same
      rw [if_pos rfl]
      cases held : quorum.get derivation.action with
      | none =>
        simp [held]
      | some start =>
        rw [if_neg (by simp), incrementCount, OrderedMap.get_set_self, held]
        rfl
    · rw [if_neg same]
      split
      · rfl
      · rw [incrementCount, OrderedMap.get_set_of_ne _ (Ne.symm same)]

/-- What is expected of an action by its proposals. -/
abbrev stakes (action : String) (proposals : List ActionProposal) : List JsNumber :=
  amountsOf (·.action) expectedValue action proposals

theorem get_quorum (proposals : List ActionProposal) (derivations : List NALDerivation)
    (action : String) :
    (arbitration.quorum proposals derivations).get action =
      if stakes action proposals = [] then none
      else some (sumFrom (sumFrom 0 (stakes action proposals))
        (amountsOf (·.action) arbitration.vote action derivations)) := by
  rw [quorum, get_foldl_votes, get_foldl_incrementCount]
  split <;> rfl

section

variable {proposals otherProposals : List ActionProposal}
  {derivations otherDerivations : List NALDerivation}

theorem amountsOf_perm {Item items others} (same : items.Perm others) (keyOf : Item → String)
    (delta : Item → JsNumber) (key : String) :
    (amountsOf keyOf delta key items).Perm (amountsOf keyOf delta key others) :=
  (same.filter _).map _

theorem get_quorum_perm (sameProposals : proposals.Perm otherProposals)
    (sameDerivations : derivations.Perm otherDerivations) :
    (arbitration.quorum proposals derivations).SameBindings
      (arbitration.quorum otherProposals otherDerivations) := by
  intro action
  have stakesSame := amountsOf_perm sameProposals (·.action) expectedValue action
  have votesSame := amountsOf_perm sameDerivations (·.action) arbitration.vote action
  have empty : stakes action proposals = [] ↔ stakes action otherProposals = [] :=
    ⟨fun none => List.nil_perm.mp (none ▸ stakesSame),
      fun none => List.perm_nil.mp (none ▸ stakesSame)⟩
  rw [get_quorum, get_quorum, sumFrom_perm stakesSame, sumFrom_perm votesSame]
  simp only [empty]

/-! ### The winner -/

theorem eq_of_tied (quorum : OrderedMap String JsNumber) {first second}
    (isFirst : first ∈ quorum.entries) (isSecond : second ∈ quorum.entries)
    (tie : bySupport.tied first second = true) : first = second := by
  obtain ⟨forward, backward⟩ := (bySupport.tied_iff first second).mp tie
  have names : codeUnits first.1 = codeUnits second.1 := by
    simp only [bySupport, thenBy, Comparison.comap, unitOrder, Bool.or_eq_true, Bool.and_eq_true,
      Bool.not_eq_true', decide_eq_true_eq] at forward backward
    rcases forward with below | ⟨level, low⟩
    · rcases backward with above | ⟨level, -⟩
      · have total := Cycle.descending.total first.2 second.2
        simp [below, above] at total
      · rw [below] at level
        cases level
    · rcases backward with above | ⟨-, high⟩
      · rw [above] at level
        cases level
      · exact le_antisymm low high
  have keys := codeUnits_injective names
  have firstHeld := (OrderedMap.get_eq_some_iff quorum first.1 first.2).mpr isFirst
  have secondHeld := (OrderedMap.get_eq_some_iff quorum second.1 second.2).mpr isSecond
  rw [keys, secondHeld] at firstHeld
  exact Prod.ext keys (Option.some.inj firstHeld).symm

theorem nodup_entries (quorum : OrderedMap String JsNumber) : quorum.entries.Nodup :=
  quorum.nodup.of_map

theorem entries_perm {quorum other : OrderedMap String JsNumber}
    (same : quorum.SameBindings other) : quorum.entries.Perm other.entries := by
  rw [List.perm_ext_iff_of_nodup (nodup_entries quorum) (nodup_entries other)]
  rintro ⟨action, score⟩
  rw [← OrderedMap.get_eq_some_iff, ← OrderedMap.get_eq_some_iff, same action]

theorem winner_of_sameBindings {quorum other} (same : quorum.SameBindings other) :
    arbitration.winner quorum = arbitration.winner other := by
  have entries := (entries_perm same).filter fun entry => lessEq arbitration.floor entry.2
  unfold winner
  rw [(bySupport.toSorted_perm_iff _).mpr ?_ _ entries]
  intro first isFirst second isSecond tie
  exact eq_of_tied other (List.mem_filter.mp isFirst).1 (List.mem_filter.mp isSecond).1 tie

theorem proposed_of_winner {action score}
    (wins : arbitration.winner (arbitration.quorum proposals derivations) = some (action, score)) :
    stakes action proposals ≠ [] ∧ ∀ stake ∈ stakes action proposals, stake ≠ .nan := by
  have among := Comparison.mem_toSorted.mp (List.mem_of_head? wins)
  obtain ⟨held, reaches⟩ := List.mem_filter.mp among
  have tallied := (OrderedMap.get_eq_some_iff _ _ _).mpr held
  rw [get_quorum] at tallied
  split at tallied
  · cases tallied
  · rename_i proposed
    have isNumber : score ≠ .nan := (lessEq_iff.mp reaches).2.1
    rw [← Option.some.inj tallied] at isNumber
    exact ⟨proposed, (ne_nan_of_sumFrom (ne_nan_of_sumFrom isNumber).1).2⟩

/-! ### The best proposal -/

theorem lessEq_bestOf_step {best} (bestNumber : expectedValue best ≠ .nan)
    (numbers : ∀ proposal ∈ proposals, expectedValue proposal ≠ .nan) :
    ∃ found, proposals.foldl (fun best proposal =>
        match best with
        | none => some proposal
        | some found =>
          if less (expectedValue found) (expectedValue proposal) then some proposal else best)
        (some best) = some found ∧
      ∀ proposal ∈ best :: proposals,
        lessEq (expectedValue proposal) (expectedValue found) = true := by
  induction proposals generalizing best with
  | nil => exact ⟨best, rfl, by simpa using lessEq_refl bestNumber⟩
  | cons proposal rest ih =>
    obtain ⟨isNumber, later⟩ := List.forall_mem_cons.mp numbers
    rw [List.foldl_cons]
    dsimp only
    split
    · rename_i beaten
      obtain ⟨found, result, greatest⟩ := ih isNumber later
      refine ⟨found, result, List.forall_mem_cons.mpr ⟨?_, greatest⟩⟩
      have below : lessEq (expectedValue best) (expectedValue proposal) = true :=
        (lessEq_total bestNumber isNumber).resolve_right fun above =>
          absurd (lessEq_iff.mp above).2.2 (by simp [beaten])
      exact lessEq_trans below (greatest proposal List.mem_cons_self)
    · rename_i stays
      obtain ⟨found, result, greatest⟩ := ih bestNumber later
      obtain ⟨bestBelow, others⟩ := List.forall_mem_cons.mp greatest
      refine ⟨found, result,
        List.forall_mem_cons.mpr ⟨bestBelow, List.forall_mem_cons.mpr ⟨?_, others⟩⟩⟩
      have below : lessEq (expectedValue proposal) (expectedValue best) = true :=
        lessEq_iff.mpr ⟨isNumber, bestNumber, Bool.eq_false_iff.mpr stays⟩
      exact lessEq_trans below bestBelow

theorem lessEq_bestOf {best} (numbers : ∀ proposal ∈ proposals, expectedValue proposal ≠ .nan)
    (found : bestOf proposals = some best) :
    ∀ proposal ∈ proposals, lessEq (expectedValue proposal) (expectedValue best) = true := by
  cases proposals with
  | nil => simp
  | cons first rest =>
    obtain ⟨isNumber, later⟩ := List.forall_mem_cons.mp numbers
    obtain ⟨greatest, result, above⟩ := lessEq_bestOf_step isNumber later
    have same : greatest = best := Option.some.inj (result.symm.trans found)
    exact same ▸ above

theorem lessEq_antisymm {first second} (low : lessEq first second = true)
    (high : lessEq second first = true) : first = second := by
  cases first <;> cases second <;> simp_all [lessEq, less]
  · grind
  · exact le_antisymm low high

theorem expectedValue_bestOf_perm (same : proposals.Perm otherProposals)
    (numbers : ∀ proposal ∈ proposals, expectedValue proposal ≠ .nan) :
    (bestOf proposals).map expectedValue = (bestOf otherProposals).map expectedValue := by
  have otherNumbers : ∀ proposal ∈ otherProposals, expectedValue proposal ≠ .nan :=
    fun proposal among => numbers proposal (same.mem_iff.mpr among)
  cases best : bestOf proposals with
  | none =>
    have empty : proposals = [] := by
      by_contra some
      obtain ⟨proposal, among⟩ := List.exists_mem_of_ne_nil _ some
      simpa [best] using bestOf_isSome among
    rw [empty] at same
    rw [List.nil_perm.mp same]
    rfl
  | some best =>
    obtain ⟨other, found⟩ :=
      Option.isSome_iff_exists.mp (bestOf_isSome (same.mem_iff.mp (bestOf_mem best)))
    rw [found, Option.map_some, Option.map_some]
    have below := lessEq_bestOf otherNumbers found _ (same.mem_iff.mp (bestOf_mem best))
    have above := lessEq_bestOf numbers best _ (same.mem_iff.mpr (bestOf_mem found))
    rw [lessEq_antisymm below above]

end

/-! ### The action that is executed -/

theorem actionExecuted_decide (proposals : List ActionProposal) (derivations : List NALDerivation) :
    (arbitration.decide proposals derivations).actionExecuted =
      (arbitration.winner (arbitration.quorum proposals derivations)).bind fun entry =>
        ((bestOf (proposals.filter (·.action = entry.1))).map expectedValue).bind fun value =>
          if less value arbitration.reflexThreshold then none else some entry.1 := by
  unfold decide
  split
  · rename_i empty
    rw [empty]
    cases arbitration.winner (arbitration.quorum [] derivations) <;> rfl
  · cases wins : arbitration.winner (arbitration.quorum proposals derivations) with
    | none => rfl
    | some entry =>
      obtain ⟨action, score⟩ := entry
      dsimp only [Option.bind_some]
      cases bestOf (proposals.filter (·.action = action)) with
      | none => rfl
      | some best =>
        dsimp only [Option.map_some, Option.bind_some]
        split <;> rfl

end WeightedQuorum

end Senars.Reflex
