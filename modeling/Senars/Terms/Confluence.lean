/-
This file is about the order of the reducers. The loop is run with the registry
in any order, and the term it settles on is compared with the one the declared
order settles on.

A term under way leads to one result, which every reducer that fires keeps, so
long as the arguments it started from are clear. Two passes reach a canonical
term in any order, because the first flattens and nothing but flattening brings
a redex back, and a canonical term leads only to itself. Arguments that are not
clear show the order: a contradiction offered before the splice, or `TRUE`
dropped before the repeats, settles on another term.
-/

import Senars.Terms.Commutation

namespace Senars.Terms

open Library

/-! ### Where a term leads -/

/-- What the negation of a term is instead, where a reducer applies to it. -/
def cancelled : Term → Option Term
  | .compound .negation (operand :: _) => some operand
  | .compound _ _ => none
  | .atom symbol =>
    if symbol = BoolSymbol.TRUE.text then some falseAtom
    else if symbol = BoolSymbol.FALSE.text then some trueAtom
    else none

/-- A term that the reducers turn into `result`, in whatever order they are offered. -/
inductive LeadsTo (collator : Collator) (result : Term) : Term → Prop
  | arrived (canonical : Canonical id collator result) : LeadsTo collator result result
  | negation (operand : Term) (canonical : Canonical id collator result)
      (leads : cancelled operand = some result) :
      LeadsTo collator result (.compound .negation [operand])
  | gathered (kind : OperatorKey) (args : List Term) (nary : naryOps kind = true)
      (canonical : ∀ arg ∈ args, Canonical id collator arg)
      (rebuilt : compoundOf collator kind args = .ok (.compound kind args))
      (clear : Clear kind args)
      (leads : outcome collator kind (spliced kind args) = .ok result) :
      LeadsTo collator result (.compound kind args)

section LeadsTo

variable {collator : Collator} {result : Term}

variable {kind : OperatorKey} {args : List Term} {next operand : Term}

theorem built_leadsTo (nary : naryOps kind = true)
    (canonical : ∀ arg ∈ args, Canonical id collator arg)
    (clear : Clear kind (arranged collator kind args))
    (different : kind = .conjunction → args ≠ [trueAtom])
    (leads : outcome collator kind (spliced kind (arranged collator kind args)) = .ok result)
    (built : compoundOf collator kind args = .ok next) : LeadsTo collator result next := by
  cases folds : folded kind args with
  | some term =>
    have single : arranged collator kind args = args := by
      match args, folds with
      | [], _ => unfold arranged; split <;> rfl
      | [arg], _ => unfold arranged; split <;> rfl
      | first :: second :: rest, folds =>
        rw [folded_cons_cons] at folds
        cases folds
    rw [single, outcome_of_folded canonical folds different, Except.ok.injEq] at leads
    rw [compoundOf_of_folded collator folds, Except.ok.injEq] at built
    subst built leads
    exact .arrived (folded_canonical canonical folds)
  | none =>
    have compound : compoundOf collator kind args =
        .ok (.compound kind (arranged collator kind args)) := compoundOf_nary nary folds
    rw [compound, Except.ok.injEq] at built
    subst built
    refine .gathered kind _ nary (fun arg member => canonical arg (mem_arranged.mp member)) ?_
      clear leads
    rw [compoundOf_arranged nary, compound]

theorem cancelled_of_settled (settled : ∀ reducer ∈ termReducers id collator,
      reducer.applies (.compound .negation [operand]) = false) : cancelled operand = none := by
  have double := settled doubleNegation (by simp [termReducers])
  have negateT := settled negateTrue (by simp [termReducers])
  have negateF := settled negateFalse (by simp [termReducers])
  cases operand with
  | atom symbol =>
    simp only [negateTrue, negateFalse, negateBool, beq_eq_false_iff_ne, ne_eq,
      Term.atom.injEq] at negateT negateF
    simp [cancelled, negateT, negateF]
  | compound kind args =>
    cases kind <;> cases args <;> first | rfl | cases double

theorem LeadsTo.eq_of_canonical {term} (leads : LeadsTo collator result term)
    (canonical : Canonical id collator term) : term = result := by
  cases leads with
  | arrived _ => rfl
  | negation operand _ cancels =>
    rw [cancelled_of_settled canonical.settled] at cancels
    cases cancels
  | gathered kind args nary canonicalArgs rebuilt clear outcome =>
    rw [spliced_eq_self (canonical.flat nary), canonical.outcome_eq, Except.ok.injEq] at outcome
    exact outcome

theorem cancelled_of_applies {reducer} (member : reducer ∈ termReducers id collator)
    (fires : reducer.applies (.compound .negation [operand]) = true)
    (done : reducer.reduce (.compound .negation [operand]) = .ok next) :
    cancelled operand = some next := by
  have constant : ∀ symbol : BoolSymbol,
      (negateBool symbol).applies (.compound .negation [operand]) = true →
      (negateBool symbol).reduce (.compound .negation [operand]) = .ok next →
      cancelled operand = some next := by
    intro symbol applies reduced
    have equal : operand = .atom symbol.text := beq_iff_eq.mp applies
    subst equal
    have built : atomOf symbol.other.text = .ok next := reduced
    cases symbol <;> exact congrArg some (Except.ok.inj built)
  simp only [termReducers, List.mem_cons, List.not_mem_nil, or_false] at member
  rcases member with rfl | rfl | rfl | rfl | rfl | rfl | rfl | rfl | rfl | rfl | rfl
  · cases fires
  · cases fires
  · cases fires
  · cases fires
  · simp only [doubleNegation] at fires
    split at fires
    · rename_i inner rest equal
      obtain ⟨_, same⟩ := Term.compound.inj equal
      obtain ⟨rfl, _⟩ := List.cons.inj same
      cases inner with
      | nil => cases done
      | cons first others => exact congrArg some (Except.ok.inj done)
    · cases fires
  · exact constant .TRUE fires done
  · exact constant .FALSE fires done
  · cases fires
  · cases fires
  · cases fires
  · cases fires

theorem eq_of_decided (clear : Clear kind args) {symbol} (boolean : neutral kind = some symbol)
    (found : (decided kind args).isSome = true)
    (leads : outcome collator kind (spliced kind args) = .ok result) :
    result = .atom symbol.other.text := by
  rw [outcome, decided_eq boolean (clear.pair found), Except.ok.injEq] at leads
  exact leads.symm

theorem LeadsTo.step {reducer} (member : reducer ∈ termReducers id collator) {term}
    (leads : LeadsTo collator result term) (fires : reducer.applies term = true)
    (done : reducer.reduce term = .ok next) : LeadsTo collator result next := by
  cases leads with
  | arrived canonical => exact absurd fires (by simp [canonical.settled reducer member])
  | negation operand canonical cancels =>
    have same := (cancelled_of_applies member fires done).symm.trans cancels
    cases same
    exact .arrived canonical
  | gathered kind args nary canonical rebuilt clear leads =>
    obtain ⟨plain, order⟩ := arranged_of_rebuilt nary rebuilt
    have notNegation : kind ≠ .negation := by
      rintro rfl
      exact absurd nary (by decide)
    -- A part of the arguments that comes to the same leads to the same.
    have part : ∀ rest : List Term, rest.Sublist args → Clear kind rest →
        (kind = .conjunction → rest ≠ [trueAtom]) →
        outcome collator kind (spliced kind rest) = .ok result →
        compoundOf collator kind rest = .ok next → LeadsTo collator result next := by
      intro rest below restClear different restLeads built
      have restOrder := arranged_of_sublist order below
      exact built_leadsTo nary (fun arg inside => canonical arg (below.subset inside))
        (restOrder.symm ▸ restClear) different (restOrder.symm ▸ restLeads) built
    have long : kind = .conjunction → trueAtom ∈ args → 2 ≤ args.length := by
      rintro rfl inside
      match args, plain, inside with
      | _ :: _ :: _, _, _ => simp
    have decides : ∀ symbol : BoolSymbol, neutral kind = some symbol →
        (decided kind args).isSome = true → atomOf symbol.other.text = .ok next →
        LeadsTo collator result next := by
      intro symbol boolean found built
      rw [atomOf_eq built, ← eq_of_decided clear boolean found leads]
      refine .arrived ?_
      rw [eq_of_decided clear boolean found leads]
      exact .atom _
    have drops : ∀ (name : String) (symbol : BoolSymbol), neutral kind = some symbol →
        (boolAbsorb collator name kind symbol false).applies (.compound kind args) = true →
        (boolAbsorb collator name kind symbol false).reduce (.compound kind args) = .ok next →
        LeadsTo collator result next := by
      intro name symbol boolean _ reduced
      refine part _ List.filter_sublist (clear.filter boolean canonical) ?_
        ((outcome_filter boolean canonical).trans leads) reduced
      rintro rfl single
      cases boolean
      have inside : trueAtom ∈ args.filter fun arg => !BoolSymbol.TRUE.isAtomOf arg :=
        single ▸ List.mem_singleton_self trueAtom
      exact absurd (List.mem_filter.mp inside).2 (by decide)
    have absorbs : ∀ (name : String) (symbol : BoolSymbol), neutral kind = some symbol →
        (boolAbsorb collator name kind symbol.other true).applies (.compound kind args) = true →
        atomOf symbol.other.text = .ok next → LeadsTo collator result next := by
      intro name symbol boolean applies built
      simp only [boolAbsorb, kind?_compound, beq_self_eq_true, Bool.true_and, getArgs_compound,
        List.any_eq_true, isAtomOf_iff, exists_eq_right] at applies
      exact decides symbol boolean
        (decided_isSome_iff.mpr ⟨symbol, boolean, Or.inl applies⟩) built
    simp only [termReducers, List.mem_cons, List.not_mem_nil, or_false] at member
    rcases member with rfl | rfl | rfl | rfl | rfl | rfl | rfl | rfl | rfl | rfl | rfl
    · have flat : ∀ arg ∈ spliced kind args, arg.kind? ≠ some kind :=
        fun arg inside => (spliced_canonical nary canonical arg inside).2
      have ordered : spliced kind (arranged collator kind (spliced kind args)) =
          arranged collator kind (spliced kind args) :=
        spliced_eq_self fun arg inside => flat arg (mem_arranged.mp inside)
      refine built_leadsTo nary
        (fun arg inside => (spliced_canonical nary canonical arg inside).1)
        (clear.spliced nary canonical long).arranged ?_ ?_ done
      · rintro rfl single
        have given : trueAtom ∈ args := mem_of_constant_mem_spliced canonical rfl .TRUE
          (single ▸ List.mem_singleton_self trueAtom)
        obtain ⟨arg, inside, different⟩ :=
          spliced_rest canonical (clear.rest rfl given (long rfl given))
        exact different (List.mem_singleton.mp (single ▸ inside))
      · rw [ordered, outcome_arranged nary]
        exact leads
    · simp only [dedupeArgs, Bool.and_eq_true] at fires
      refine part _ (uniqueByFrom_sublist id [] args) clear.distinct ?_
        ((outcome_distinct fires.1 args).trans leads) done
      rintro rfl alone
      have single : uniqueBy id args = [trueAtom] := alone
      have same : ∀ arg, arg ∈ args → arg = trueAtom := fun arg inside =>
        List.mem_singleton.mp (single ▸ mem_uniqueBy_id.mpr inside)
      have given : trueAtom ∈ args :=
        mem_uniqueBy_id.mp (single ▸ List.mem_singleton_self trueAtom)
      obtain ⟨arg, inside, different, _⟩ := clear.rest rfl given (long rfl given)
      exact different (same arg inside)
    · simp only [conjunctionContradiction, kind?_compound, Bool.and_eq_true, beq_iff_eq,
        Option.some.injEq] at fires
      obtain ⟨rfl, pair⟩ := fires
      exact decides .TRUE rfl (decided_isSome_iff.mpr ⟨.TRUE, rfl, Or.inr pair⟩) done
    · simp only [disjunctionTautology, kind?_compound, Bool.and_eq_true, beq_iff_eq,
        Option.some.injEq] at fires
      obtain ⟨rfl, pair⟩ := fires
      exact decides .FALSE rfl (decided_isSome_iff.mpr ⟨.FALSE, rfl, Or.inr pair⟩) done
    · cases kind <;> first | exact absurd rfl notNegation | cases fires
    · cases kind <;> first | exact absurd rfl notNegation | cases fires
    · cases kind <;> first | exact absurd rfl notNegation | cases fires
    · cases kind <;> first
        | exact drops "conjunction-true" .TRUE rfl fires done
        | cases fires
    · cases kind <;> first
        | exact absorbs "conjunction-false" .TRUE rfl fires done
        | cases fires
    · cases kind <;> first
        | exact absorbs "disjunction-true" .FALSE rfl fires done
        | cases fires
    · cases kind <;> first
        | exact drops "disjunction-false" .FALSE rfl fires done
        | cases fires

theorem compoundOf_nary_ok (collator : Collator) (nary : naryOps kind = true) (args : List Term) :
    ∃ term, compoundOf collator kind args = .ok term := by
  cases folds : folded kind args with
  | some term => exact ⟨term, compoundOf_of_folded collator folds⟩
  | none => exact ⟨_, compoundOf_nary nary folds⟩

theorem outcome_ok (collator : Collator) (nary : naryOps kind = true) (args : List Term) :
    ∃ term, outcome collator kind args = .ok term := by
  unfold outcome
  split
  · exact ⟨_, rfl⟩
  · exact compoundOf_nary_ok collator nary _

theorem cancelled_canonical {result} (canonical : Canonical id collator operand)
    (cancels : cancelled operand = some result) : Canonical id collator result := by
  unfold cancelled at cancels
  split at cancels
  · cases cancels
    exact canonical.args _ List.mem_cons_self
  · cases cancels
  · split at cancels
    · exact Option.some.inj cancels ▸ .atom _
    split at cancels
    · exact Option.some.inj cancels ▸ .atom _
    · cases cancels

theorem settled_of_other (nary : naryOps kind = false) (notNegation : kind ≠ .negation)
    (args : List Term) :
    ∀ reducer ∈ termReducers id collator, reducer.applies (.compound kind args) = false := by
  intro reducer member
  simp only [termReducers, List.mem_cons, List.not_mem_nil, or_false] at member
  rcases member with rfl | rfl | rfl | rfl | rfl | rfl | rfl | rfl | rfl | rfl | rfl <;>
    cases kind <;> first | rfl | cases nary; done | exact absurd rfl notNegation

theorem exists_leadsTo (canonical : ∀ arg ∈ args, Canonical id collator arg)
    (clear : Clear kind args) {current} (built : compoundOf collator kind args = .ok current) :
    ∃ result, LeadsTo collator result current := by
  by_cases nary : naryOps kind = true
  · by_cases single : kind = .conjunction ∧ args = [trueAtom]
    · obtain ⟨rfl, rfl⟩ := single
      cases built
      exact ⟨trueAtom, .arrived (.atom _)⟩
    · obtain ⟨result, leads⟩ :=
        outcome_ok collator nary (spliced kind (arranged collator kind args))
      exact ⟨result, built_leadsTo nary canonical clear.arranged
        (fun conjunction alone => single ⟨conjunction, alone⟩) leads built⟩
  · rcases compoundOf_cases built with folds | ⟨_, _, rfl⟩
    · exact ⟨current, .arrived (folded_canonical canonical folds)⟩
    cases compoundOf_stage canonical built with
    | done _ whole => exact ⟨_, .arrived whole⟩
    | underway _ built inner rebuilt _ =>
      by_cases negation : kind = .negation
      · subst negation
        obtain ⟨operand, equal⟩ := negation_args_of_rebuilt rebuilt
        rw [equal] at inner rebuilt ⊢
        cases cancels : cancelled operand with
        | some result =>
          exact ⟨result, .negation operand
            (cancelled_canonical (inner operand List.mem_cons_self) cancels) cancels⟩
        | none =>
          refine ⟨_, .arrived (.compound _ _ inner rebuilt fun reducer member => ?_)⟩
          by_contra applies
          have fires := Bool.not_eq_false _ ▸ applies
          obtain ⟨next, done, _⟩ := offer_stage (.underway _ _ inner rebuilt (by simp))
            (by simp) member fun _ => rfl
          rw [offer_of_applies fires] at done
          rw [cancelled_of_applies member fires done] at cancels
          cases cancels
      · exact ⟨_, .arrived (.compound _ _ inner rebuilt
          (settled_of_other (Bool.not_eq_true _ ▸ nary) negation _))⟩

end LeadsTo

/-! ### Two passes in any order -/

section Passes

variable {Key : Type} [DecidableEq Key] {key : Term → Key} {collator : Collator}

variable {term : Term} {reducers : List TermReducer}

theorem Stage.mono {offered fewer} (stage : Stage key collator offered term)
    (among : ∀ reducer ∈ fewer, reducer ∈ offered) : Stage key collator fewer term := by
  cases stage with
  | done _ canonical => exact .done term canonical
  | underway kind args canonical rebuilt quiet =>
    exact .underway kind args canonical rebuilt fun reducer member => quiet reducer (among _ member)

theorem offer_flat_stage {offered} (stage : Stage key collator offered term)
    (registered : ∀ reducer ∈ offered, reducer ∈ termReducers key collator)
    (flat : flattenNested collator ∈ offered) {reducer}
    (member : reducer ∈ termReducers key collator) :
    ∃ next, offer term reducer = .ok next ∧ Stage key collator (reducer :: offered) next := by
  by_cases flattening : reducer.id = "flatten-nested"
  · have same : reducer = flattenNested collator := by
      simp only [termReducers, List.mem_cons, List.not_mem_nil, or_false] at member
      rcases member with rfl | rfl | rfl | rfl | rfl | rfl | rfl | rfl | rfl | rfl | rfl
      · rfl
      all_goals exact absurd flattening (of_decide_eq_true rfl)
    subst same
    have among : ∀ other ∈ flattenNested collator :: offered, other ∈ offered :=
      List.forall_mem_cons.mpr ⟨flat, fun other inside => inside⟩
    cases stage with
    | done _ canonical =>
      exact ⟨term, offer_of_not_applies (canonical.settled _ member), .done term canonical⟩
    | underway kind args canonical rebuilt quiet =>
      exact ⟨_, offer_of_not_applies (quiet _ flat),
        .underway kind args canonical rebuilt fun other inside => quiet other (among other inside)⟩
  · exact offer_stage stage registered member fun same => absurd same flattening

theorem pass_flat_stage (member : ∀ reducer ∈ reducers, reducer ∈ termReducers key collator) :
    ∀ {offered : List TermReducer} {term : Term}, Stage key collator offered term →
      (∀ reducer ∈ offered, reducer ∈ termReducers key collator) →
      flattenNested collator ∈ offered →
      ∃ next, pass reducers term = .ok next ∧
        Stage key collator (reducers.reverse ++ offered) next := by
  induction reducers with
  | nil => exact fun {_} {term} stage _ _ => ⟨term, rfl, stage⟩
  | cons reducer rest ih =>
    intro offered term stage registered flat
    have head := member reducer List.mem_cons_self
    obtain ⟨middle, offeredOk, middleStage⟩ := offer_flat_stage stage registered flat head
    obtain ⟨next, restOk, nextStage⟩ := ih
      (fun other inside => member other (List.mem_cons_of_mem _ inside)) middleStage
      (List.forall_mem_cons.mpr ⟨head, registered⟩) (List.mem_cons_of_mem _ flat)
    refine ⟨next, ?_, ?_⟩
    · rw [pass, List.foldlM_cons, offeredOk]
      exact restOk
    · rwa [List.reverse_cons, List.append_assoc, List.singleton_append]

theorem pass_flattens (member : ∀ reducer ∈ reducers, reducer ∈ termReducers key collator)
    (flatten : flattenNested collator ∈ reducers) (stage : Stage key collator [] term) :
    ∃ next, pass reducers term = .ok next ∧
      Stage key collator [flattenNested collator] next := by
  induction reducers generalizing term with
  | nil => exact absurd flatten List.not_mem_nil
  | cons reducer rest ih =>
    have head := member reducer List.mem_cons_self
    have tail : ∀ other ∈ rest, other ∈ termReducers key collator :=
      fun other inside => member other (List.mem_cons_of_mem _ inside)
    obtain ⟨middle, offeredOk, middleStage⟩ := offer_stage stage (by simp) head fun _ => rfl
    have pass_eq : pass (reducer :: rest) term = pass rest middle := by
      rw [pass, List.foldlM_cons, offeredOk]
      rfl
    rw [pass_eq]
    rcases List.mem_cons.mp flatten with rfl | later
    · obtain ⟨next, restOk, nextStage⟩ := pass_flat_stage tail middleStage
        (List.forall_mem_singleton.mpr head) List.mem_cons_self
      exact ⟨next, restOk, nextStage.mono fun other inside =>
        List.mem_append_right _ inside⟩
    · exact ih tail later (middleStage.mono (by simp))

theorem settle_of_passes {first second} (firstPass : pass reducers term = .ok first)
    (secondPass : pass reducers first = .ok second)
    (thirdPass : pass reducers second = .ok second) (original : Term) :
    settle reducers original maxPasses term = .ok second := by
  by_cases start : first = term
  · subst start
    rw [firstPass, Except.ok.injEq] at secondPass
    subst secondPass
    simp [maxPasses, settle, firstPass, bind, Except.bind]
  · by_cases middle : second = first
    · simp [maxPasses, settle, firstPass, secondPass, start, middle, bind, Except.bind]
    · simp [maxPasses, settle, firstPass, secondPass, thirdPass, start, middle, bind, Except.bind]

theorem settle_perm (perm : reducers.Perm (termReducers key collator))
    (stage : Stage key collator [] term) (original : Term) :
    ∃ normal, settle reducers original maxPasses term = .ok normal ∧
      Canonical key collator normal := by
  have member : ∀ reducer ∈ reducers, reducer ∈ termReducers key collator :=
    fun _ inside => perm.subset inside
  have flatten : flattenNested collator ∈ termReducers key collator := by simp [termReducers]
  obtain ⟨first, firstPass, flat⟩ := pass_flattens member (perm.symm.subset flatten) stage
  obtain ⟨second, secondPass, offered⟩ := pass_flat_stage member flat
    (List.forall_mem_singleton.mpr flatten) List.mem_cons_self
  have canonical := offered.canonical fun reducer inside => List.mem_append_left _
    (List.mem_reverse.mpr (perm.symm.subset inside))
  have thirdPass : pass reducers second = .ok second :=
    pass_of_not_applies fun reducer inside => canonical.settled reducer (member reducer inside)
  exact ⟨second, settle_of_passes firstPass secondPass thirdPass original, canonical⟩

end Passes

variable {collator : Collator} {term : Term}

theorem LeadsTo.settle_eq {result} (leads : LeadsTo collator result term)
    (stage : Stage id collator [] term) {reducers}
    (perm : reducers.Perm (termReducers id collator)) (original : Term) :
    settle reducers original maxPasses term = .ok result := by
  obtain ⟨normal, settled, canonical⟩ := settle_perm perm stage original
  have step : ∀ reducer ∈ reducers, ∀ current next, LeadsTo collator result current →
      reducer.applies current = true → reducer.reduce current = .ok next →
      LeadsTo collator result next :=
    fun reducer member current next leadsTo fires done =>
      leadsTo.step (perm.subset member) fires done
  have arrived : normal = result := (settle_preserves step leads settled).eq_of_canonical canonical
  rw [settled, arrived]

/-! ### Where the order shows -/

theorem settle_of_start {firsts others} {Holds : Term → Prop}
    (step : ∀ reducer ∈ firsts ++ others, ∀ term next, Holds term →
      reducer.applies term = true → reducer.reduce term = .ok next → Holds next) {middle}
    (start : pass firsts term = .ok middle) (holds : Holds middle) {original normal passes}
    (done : settle (firsts ++ others) original passes term = .ok normal) : Holds normal := by
  cases passes with
  | zero => cases done
  | succ passes =>
    have pass_eq : pass (firsts ++ others) term = pass others middle := by
      have started : firsts.foldlM offer term = .ok middle := start
      rw [pass, List.foldlM_append, started]
      rfl
    rw [settle, pass_eq] at done
    obtain ⟨next, passed, goesOn⟩ := bind_eq_ok.mp done
    have nextHolds : Holds next := pass_preserves
      (fun reducer member => step reducer (List.mem_append_right _ member)) holds passed
    split at goesOn
    · next same => exact Except.ok.inj goesOn ▸ same ▸ nextHolds
    · exact settle_preserves step nextHolds goesOn

theorem pass_singleton (reducer : TermReducer) (term : Term) :
    pass [reducer] term = offer term reducer := by
  rw [pass, List.foldlM_cons]
  cases offer term reducer <;> rfl

theorem exists_perm_cons {reducers} {reducer : TermReducer} (member : reducer ∈ reducers) :
    ∃ others, (reducer :: others).Perm reducers := by
  obtain ⟨before, later, rfl⟩ := List.append_of_mem member
  exact ⟨before ++ later, List.perm_middle.symm⟩

theorem atom_step {symbol reducer} (member : reducer ∈ termReducers id collator) {next : Term}
    (equal : term = .atom symbol) (fires : reducer.applies term = true) : next = .atom symbol := by
  rw [equal, (Canonical.atom symbol).settled reducer member] at fires
  cases fires

theorem compoundOf_eq_atom {kind args symbol}
    (built : compoundOf collator kind args = .ok (.atom symbol)) :
    ∀ arg ∈ args, arg = .atom symbol := by
  intro arg member
  rcases compoundOf_cases built with folds | ⟨_, _, equal⟩
  · match args, folds with
    | [], _ => exact absurd member List.not_mem_nil
    | [only], folds =>
      have same : only = .atom symbol := by cases kind <;> cases folds <;> rfl
      exact (List.mem_singleton.mp member).trans same
    | first :: second :: rest, folds =>
      rw [folded_cons_cons] at folds
      cases folds
  · cases equal

theorem two_le_length_of_mem {Value : Type} {values : List Value} {first second}
    (firstMember : first ∈ values) (secondMember : second ∈ values) (different : first ≠ second) :
    2 ≤ values.length := by
  match values with
  | [] => exact absurd firstMember List.not_mem_nil
  | [only] =>
    have same := (List.mem_singleton.mp firstMember).trans (List.mem_singleton.mp secondMember).symm
    exact absurd same different
  | _ :: _ :: _ => simp

section Orders

variable {collator : Collator} {kind : OperatorKey} {normals : List Term} {original : Term}

variable {args : List Term} {symbol : BoolSymbol}

theorem exists_pair_reducer (boolean : neutral kind = some symbol)
    (pair : hasNegatedPair id (.compound kind args) = true) :
    ∃ reducer ∈ termReducers id collator, reducer.applies (.compound kind args) = true ∧
      reducer.reduce (.compound kind args) = .ok (.atom symbol.other.text) := by
  cases kind <;> first | cases boolean; done | skip
  · cases boolean
    refine ⟨conjunctionContradiction id, by simp [termReducers], ?_, rfl⟩
    simp [conjunctionContradiction, pair]
  · cases boolean
    refine ⟨disjunctionTautology id, by simp [termReducers], ?_, rfl⟩
    simp [disjunctionTautology, pair]

theorem settle_pair_first (boolean : neutral kind = some symbol)
    (pair : hasNegatedPair id (.compound kind args) = true) {normal}
    (same : ∀ reducers, reducers.Perm (termReducers id collator) →
      settle reducers original maxPasses (.compound kind args) = .ok normal) :
    normal = .atom symbol.other.text := by
  obtain ⟨reducer, registered, fires, reduced⟩ := exists_pair_reducer boolean pair
  obtain ⟨others, perm⟩ := exists_perm_cons registered
  have start : pass [reducer] (.compound kind args) = .ok (.atom symbol.other.text) := by
    rw [pass_singleton, offer_of_applies fires, reduced]
  have kept : ∀ other ∈ [reducer] ++ others, ∀ term next, term = .atom symbol.other.text →
      other.applies term = true → other.reduce term = .ok next →
      next = .atom symbol.other.text :=
    fun other inside _ _ equal applies _ => atom_step (perm.subset inside) equal applies
  exact settle_of_start kept start rfl (same _ perm)

theorem settle_splice_first (nary : naryOps kind = true)
    (canonical : ∀ arg ∈ args, Canonical id collator arg)
    (nested : ∃ arg ∈ args, arg.kind? = some kind)
    (notTrue : ∃ arg ∈ spliced kind args, arg ≠ trueAtom) {normal}
    (normalCanonical : Canonical id collator normal)
    (settled : settle (termReducers id collator) original maxPasses (.compound kind args) =
      .ok normal) : outcome collator kind (spliced kind args) = .ok normal := by
  have flat : ∀ arg ∈ spliced kind args, Canonical id collator arg ∧ arg.kind? ≠ some kind :=
    spliced_canonical nary canonical
  have arrangedFlat : ∀ arg ∈ arranged collator kind (spliced kind args), arg.kind? ≠ some kind :=
    fun arg member => (flat arg (mem_arranged.mp member)).2
  obtain ⟨middle, flattened⟩ := compoundOf_nary_ok collator nary (spliced kind args)
  obtain ⟨result, leadsTo⟩ := outcome_ok collator nary
    (spliced kind (arranged collator kind (spliced kind args)))
  obtain ⟨arg, member, different⟩ := notTrue
  have leads : LeadsTo collator result middle := by
    refine built_leadsTo nary (fun arg member => (flat arg member).1) ?_ ?_ leadsTo flattened
    · exact clear_of_flat arrangedFlat fun _ _ _ => ⟨arg, mem_arranged.mpr member, different⟩
    · exact fun _ single => different (List.mem_singleton.mp (single ▸ member))
  have fires : (flattenNested collator).applies (.compound kind args) = true := by
    simp only [flattenNested, Bool.and_eq_true, List.any_eq_true, beq_iff_eq]
    exact ⟨nary, nested⟩
  have start : pass [flattenNested collator] (.compound kind args) = .ok middle := by
    rw [pass_singleton, offer_of_applies fires]
    exact flattened
  have kept : ∀ other ∈ [flattenNested collator] ++ (termReducers id collator).tail,
      ∀ term next, LeadsTo collator result term → other.applies term = true →
        other.reduce term = .ok next → LeadsTo collator result next :=
    fun other inside _ _ leads applies done => leads.step inside applies done
  have arrived : normal = result :=
    (settle_of_start kept start leads settled).eq_of_canonical normalCanonical
  rw [spliced_eq_self arrangedFlat, outcome_arranged nary] at leadsTo
  rw [leadsTo, arrived]

theorem pair_of_order (boolean : neutral kind = some symbol)
    (canonical : ∀ arg ∈ normals, Canonical id collator arg) {current}
    (built : compoundOf collator kind normals = .ok current)
    (same : ∀ reducers, reducers.Perm (termReducers id collator) →
      settle reducers original maxPasses current =
        settle (termReducers id collator) original maxPasses current)
    (found : (decided kind normals).isSome = true) :
    (decided kind (spliced kind normals)).isSome = true := by
  by_contra lost
  have nary := flattened_of_neutral boolean
  have undecided := fun member => lost (decided_isSome_iff.mpr ⟨symbol, boolean, member⟩)
  -- The absorbing constant would survive the splice, so the arguments have a negated pair.
  have pair : hasNegatedPair id (.compound kind normals) = true := by
    obtain ⟨constant, equal, member | pair⟩ := decided_isSome_iff.mp found
    · cases boolean.symm.trans equal
      exact absurd (Or.inl (atom_mem_spliced member)) undecided
    · exact pair
  obtain ⟨operand, rest, negation, positive⟩ := hasNegatedPair_iff.mp pair
  have negative : .compound .negation (operand :: rest) ∈ spliced kind normals :=
    mem_spliced.mpr (Or.inl ⟨negation, by cases kind <;> first | cases boolean; done | simp⟩)
  have nested : operand.kind? = some kind := by
    by_contra different
    exact undecided (Or.inr (hasNegatedPair_iff.mpr
      ⟨operand, rest, negative, mem_spliced.mpr (Or.inl ⟨positive, different⟩)⟩))
  have plain : folded kind normals = none := by
    have long := two_le_length_of_mem negation positive fun equal => by
      have sizes := congrArg sizeOf equal
      simp at sizes
      omega
    match normals, long with
    | first :: second :: others, _ => exact folded_cons_cons kind first second others
  have stage := compoundOf_stage canonical built
  rw [compoundOf_nary nary plain, Except.ok.injEq] at built
  subst built
  obtain ⟨normal, settled, normalCanonical⟩ := settle_perm (List.Perm.refl _) stage original
  have arrangedMember : ∀ arg, arg ∈ arranged collator kind normals ↔ arg ∈ normals :=
    fun _ => mem_arranged
  have splicedMember : ∀ arg, arg ∈ spliced kind (arranged collator kind normals) ↔
      arg ∈ spliced kind normals := spliced_mem_congr arrangedMember
  have constant : normal = .atom symbol.other.text :=
    settle_pair_first boolean (by simpa only [hasNegatedPair_iff, arrangedMember] using pair)
      fun reducers perm => (same reducers perm).trans settled
  have result := settle_splice_first nary
    (fun arg member => canonical arg ((arrangedMember arg).mp member))
    ⟨operand, (arrangedMember operand).mpr positive, nested⟩
    ⟨_, (splicedMember _).mpr negative, by simp [trueAtom]⟩ normalCanonical settled
  -- So the constant is built of the survivors, one of which is the negation.
  rw [outcome, decided_congr splicedMember, Option.not_isSome_iff_eq_none.mp lost, constant]
    at result
  cases compoundOf_eq_atom result _
    (mem_survivors ((splicedMember _).mpr negative) fun _ => by simp)

/-- A conjunction of empty conjunctions. -/
def EmptyConjunctions (term : Term) : Prop :=
  ∃ args, term = .compound .conjunction args ∧ ∀ arg ∈ args, arg = .compound .conjunction []

theorem built_emptyConjunctions (empty : ∀ arg ∈ args, arg = .compound .conjunction []) {term}
    (built : compoundOf collator .conjunction args = .ok term) : EmptyConjunctions term := by
  cases folds : folded .conjunction args with
  | some found =>
    match args, folds with
    | [arg], folds =>
      rw [compoundOf_of_folded collator folds, Except.ok.injEq] at built
      obtain rfl := Option.some.inj folds
      subst built
      exact ⟨[], empty arg List.mem_cons_self, fun _ member => absurd member List.not_mem_nil⟩
  | none =>
    rw [compoundOf_nary rfl folds, Except.ok.injEq] at built
    exact ⟨_, built.symm, fun arg member => empty arg (mem_arranged.mp member)⟩

theorem EmptyConjunctions.step {reducer} (member : reducer ∈ termReducers id collator) {term next}
    (holds : EmptyConjunctions term) (fires : reducer.applies term = true)
    (done : reducer.reduce term = .ok next) : EmptyConjunctions next := by
  obtain ⟨args, rfl, empty⟩ := holds
  have constant : ∀ symbol : BoolSymbol, args.any symbol.isAtomOf = false := by
    intro symbol
    refine List.any_eq_false.mpr fun arg inside found => ?_
    rw [empty arg inside] at found
    cases found
  have pair : hasNegatedPair id (.compound .conjunction args) = false := by
    rw [← Bool.not_eq_true, hasNegatedPair_iff]
    rintro ⟨operand, rest, negation, _⟩
    cases empty _ negation
  simp only [termReducers, List.mem_cons, List.not_mem_nil, or_false] at member
  rcases member with rfl | rfl | rfl | rfl | rfl | rfl | rfl | rfl | rfl | rfl | rfl
  · refine built_emptyConjunctions (fun arg inside => ?_) done
    obtain ⟨outer, outerMember, deep⟩ := List.mem_flatMap.mp inside
    rw [empty outer outerMember] at deep
    cases deep
  · exact built_emptyConjunctions (fun arg inside => empty arg (mem_of_mem_uniqueBy inside)) done
  · simp [conjunctionContradiction, pair] at fires
  · cases fires
  · cases fires
  · cases fires
  · cases fires
  · simp [conjunctionTrue, boolAbsorb, constant] at fires
  · simp [conjunctionFalse, boolAbsorb, constant] at fires
  · cases fires
  · cases fires

theorem dedupe_trues (trues : ∀ arg ∈ args, arg = trueAtom) (long : 2 ≤ args.length) :
    offer (.compound .conjunction args) (dedupeArgs id collator) = .ok trueAtom := by
  match args, long with
  | first :: second :: rest, _ =>
    obtain rfl := trues first List.mem_cons_self
    obtain rfl := trues second (List.mem_cons_of_mem _ List.mem_cons_self)
    have fires : (dedupeArgs id collator).applies
        (.compound .conjunction (trueAtom :: trueAtom :: rest)) = true := by
      simp [dedupeArgs, deduped, naryOps, commutativeOps, operators, hasRepeatedArgs]
    have single : distinct id (trueAtom :: trueAtom :: rest) = [trueAtom] := by
      have tail : uniqueByFrom id [trueAtom] (trueAtom :: rest) = [] :=
        uniqueByFrom_eq_nil id _ fun arg member =>
          List.mem_singleton.mpr (trues arg (List.mem_cons_of_mem _ member))
      exact congrArg (trueAtom :: ·) tail
    rw [offer_of_applies fires]
    show compoundOf collator .conjunction (distinct id (trueAtom :: trueAtom :: rest)) = _
    rw [single]
    rfl

theorem declared_trues (given : trueAtom ∈ args) (long : 2 ≤ args.length)
    (only : ∀ arg ∈ args, arg = trueAtom ∨ arg = .compound .conjunction []) :
    pass [flattenNested collator, dedupeArgs id collator] (.compound .conjunction args) =
      .ok trueAtom := by
  have splicedTrues : ∀ arg ∈ spliced .conjunction args, arg = trueAtom := by
    intro arg member
    rcases mem_spliced.mp member with ⟨inside, different⟩ | ⟨inner, nested, deep⟩
    · exact (only arg inside).resolve_right fun empty => different (empty ▸ rfl)
    · rcases only _ nested with equal | equal
      · cases equal
      · obtain rfl := (Term.compound.inj equal).2
        cases deep
  have splicedGiven : trueAtom ∈ spliced .conjunction args := atom_mem_spliced given
  have pass_eq : ∀ middle, offer (.compound .conjunction args) (flattenNested collator) =
      .ok middle → pass [flattenNested collator, dedupeArgs id collator]
        (.compound .conjunction args) = offer middle (dedupeArgs id collator) := by
    intro middle offered
    rw [pass, List.foldlM_cons, offered]
    exact pass_singleton _ middle
  by_cases nested : (flattenNested collator).applies (.compound .conjunction args) = true
  · have reduced : offer (.compound .conjunction args) (flattenNested collator) =
        compoundOf collator .conjunction (spliced .conjunction args) := offer_of_applies nested
    rcases found : spliced .conjunction args with _ | ⟨first, _ | ⟨second, rest⟩⟩
    · rw [found] at splicedGiven
      cases splicedGiven
    · rw [found] at splicedGiven
      obtain rfl := List.mem_singleton.mp splicedGiven
      rw [found] at reduced
      rw [pass_eq _ reduced]
      exact offer_of_not_applies rfl
    · rw [found, compoundOf_nary rfl (folded_cons_cons _ _ _ _)] at reduced
      rw [pass_eq _ reduced]
      refine dedupe_trues (fun arg member => ?_) ?_
      · exact splicedTrues arg (found ▸ mem_arranged.mp member)
      · rw [(arranged_perm _ _).length_eq]
        simp
  · rw [pass_eq _ (offer_of_not_applies (Bool.not_eq_true _ ▸ nested))]
    refine dedupe_trues (fun arg member => ?_) long
    refine (only arg member).resolve_right fun empty => nested ?_
    simp only [flattenNested, Bool.and_eq_true, List.any_eq_true, beq_iff_eq]
    exact ⟨rfl, arg, member, empty ▸ rfl⟩

theorem rest_of_order (canonical : ∀ arg ∈ normals, Canonical id collator arg) {current}
    (built : compoundOf collator .conjunction normals = .ok current)
    (same : ∀ reducers, reducers.Perm (termReducers id collator) →
      settle reducers original maxPasses current =
        settle (termReducers id collator) original maxPasses current) (given : trueAtom ∈ normals)
    (long : 2 ≤ normals.length) :
    ∃ arg ∈ normals, arg ≠ trueAtom ∧ arg ≠ .compound .conjunction [] := by
  by_contra none
  have only : ∀ arg ∈ normals, arg = trueAtom ∨ arg = .compound .conjunction [] := by
    intro arg member
    by_contra different
    exact none ⟨arg, member, not_or.mp different⟩
  have plain : folded .conjunction normals = Option.none := by
    match normals, long with
    | first :: second :: others, _ => exact folded_cons_cons .conjunction first second others
  rw [compoundOf_nary rfl plain, Except.ok.injEq] at built
  subst built
  have stage : Stage id collator []
      (.compound .conjunction (arranged collator .conjunction normals)) :=
    compoundOf_stage canonical (compoundOf_nary rfl plain)
  obtain ⟨normal, settled, _⟩ := settle_perm (List.Perm.refl _) stage original
  have constant : normal = trueAtom := by
    have start : pass [flattenNested collator, dedupeArgs id collator]
        (.compound .conjunction (arranged collator .conjunction normals)) = .ok trueAtom :=
      declared_trues (mem_arranged.mpr given) ((arranged_perm _ _).length_eq.symm ▸ long)
        fun arg member => only arg (mem_arranged.mp member)
    have kept : ∀ other ∈ [flattenNested collator, dedupeArgs id collator] ++
        (termReducers id collator).tail.tail, ∀ term next, term = trueAtom →
        other.applies term = true → other.reduce term = .ok next → next = trueAtom :=
      fun other inside _ _ equal applies _ => atom_step inside equal applies
    exact settle_of_start kept start rfl settled
  have registered : conjunctionTrue collator ∈ termReducers id collator := by simp [termReducers]
  obtain ⟨others, perm⟩ := exists_perm_cons registered
  have fires : (conjunctionTrue collator).applies
      (.compound .conjunction (arranged collator .conjunction normals)) = true := by
    simp only [conjunctionTrue, boolAbsorb, kind?_compound, beq_self_eq_true, Bool.true_and,
      getArgs_compound, List.any_eq_true, isAtomOf_iff, exists_eq_right]
    exact mem_arranged.mpr given
  have nary : naryOps .conjunction = true := rfl
  obtain ⟨middle, dropped⟩ := compoundOf_nary_ok collator nary
    ((arranged collator .conjunction normals).filter fun arg => !BoolSymbol.TRUE.isAtomOf arg)
  have start : pass [conjunctionTrue collator]
      (.compound .conjunction (arranged collator .conjunction normals)) = .ok middle := by
    rw [pass_singleton, offer_of_applies fires]
    exact dropped
  have empty : EmptyConjunctions middle := by
    refine built_emptyConjunctions (fun arg member => ?_) dropped
    obtain ⟨inside, kept⟩ := List.mem_filter.mp member
    refine (only arg (mem_arranged.mp inside)).resolve_left fun isTrue => ?_
    rw [isTrue] at kept
    exact absurd kept (by decide)
  have kept : ∀ other ∈ [conjunctionTrue collator] ++ others, ∀ term next,
      EmptyConjunctions term → other.applies term = true → other.reduce term = .ok next →
      EmptyConjunctions next :=
    fun other inside _ _ holds applies done => holds.step (perm.subset inside) applies done
  obtain ⟨args, equal, _⟩ := settle_of_start kept start empty ((same _ perm).trans settled)
  cases equal.symm.trans constant

end Orders

/-! ### Which terms have one canonical form in every order -/

/-- Whether the order of the registry makes no difference to a term's canonical form. -/
def OrderIndependent (collator : Collator) (term : Term) : Prop :=
  ∀ reducers : List TermReducer, reducers.Perm (termReducers id collator) →
    canonicalizeRecursive reducers collator term = canonicalTerm id collator term

/-- At every compound of a term, the canonical arguments its loop starts from are clear. -/
def ClearThroughout (collator : Collator) (term : Term) : Prop :=
  ∀ kind args, .compound kind args ∈ visited term →
    ∀ normals, canonicalizeArgs (termReducers id collator) collator args = .ok normals →
      Clear kind normals

section Throughout

variable {collator : Collator}

theorem self_mem_visited (term : Term) : term ∈ visited term := by
  cases term <;> exact List.mem_cons_self

variable {args : List Term}

theorem canonicalizeArgs_canonical {normals}
    (done : canonicalizeArgs (termReducers id collator) collator args = .ok normals) :
    ∀ normal ∈ normals, Canonical id collator normal := by
  intro normal member
  obtain ⟨arg, _, argDone⟩ := exists_left_of_forall₂ (canonicalizeArgs_forall₂ done) member
  exact canonicalTerm_canonical argDone

theorem canonicalizeArgs_order {reducers}
    (same : ∀ arg ∈ args, canonicalizeRecursive reducers collator arg =
      canonicalTerm id collator arg) :
    canonicalizeArgs reducers collator args =
      canonicalizeArgs (termReducers id collator) collator args := by
  induction args with
  | nil => rfl
  | cons arg rest ih =>
    rw [canonicalizeArgs, canonicalizeArgs, same arg List.mem_cons_self, canonicalTerm,
      ih fun other member => same other (List.mem_cons_of_mem _ member)]

theorem orderIndependent_compound {kind} (each : ∀ arg ∈ args, OrderIndependent collator arg)
    (clear : ∀ normals, canonicalizeArgs (termReducers id collator) collator args = .ok normals →
      Clear kind normals) : OrderIndependent collator (.compound kind args) := by
  intro reducers perm
  rw [canonicalTerm, canonicalizeRecursive, canonicalizeRecursive,
    canonicalizeArgs_order fun arg member => each arg member reducers perm]
  cases argsDone : canonicalizeArgs (termReducers id collator) collator args with
  | error error => simp only [bind, Except.bind]
  | ok normals =>
    have canonical := canonicalizeArgs_canonical argsDone
    simp only [bind, Except.bind]
    cases built : compoundOf collator kind normals with
    | error error => rfl
    | ok current =>
      have stage := compoundOf_stage canonical built
      obtain ⟨result, leads⟩ := exists_leadsTo canonical (clear normals argsDone) built
      simp only [leads.settle_eq stage perm, leads.settle_eq stage (List.Perm.refl _)]

theorem clear_of_orderIndependent {kind normals}
    (each : ∀ arg ∈ args, OrderIndependent collator arg)
    (whole : OrderIndependent collator (.compound kind args))
    (argsDone : canonicalizeArgs (termReducers id collator) collator args = .ok normals) :
    Clear kind normals := by
  have canonical := canonicalizeArgs_canonical argsDone
  cases boolean : neutral kind with
  | none =>
    refine ⟨fun found => ?_, fun conjunction => ?_⟩
    · obtain ⟨symbol, same, _⟩ := decided_isSome_iff.mp found
      cases boolean.symm.trans same
    · rw [conjunction] at boolean
      cases boolean
  | some symbol =>
    obtain ⟨current, built⟩ :=
      compoundOf_nary_ok collator (flattened_of_neutral boolean) normals
    have same : ∀ reducers, reducers.Perm (termReducers id collator) →
        settle reducers (.compound kind args) maxPasses current =
          settle (termReducers id collator) (.compound kind args) maxPasses current := by
      intro reducers perm
      have equal := whole reducers perm
      rw [canonicalTerm, canonicalizeRecursive, canonicalizeRecursive,
        canonicalizeArgs_order fun arg member => each arg member reducers perm, argsDone] at equal
      simpa only [bind, Except.bind, built] using equal
    refine ⟨pair_of_order boolean canonical built same, ?_⟩
    rintro rfl given long
    exact rest_of_order canonical built same given long

/-- The reducers commute on a term and on everything nested in it exactly where every loop
starts from clear arguments. -/
theorem canonicalizeRecursive_order (collator : Collator) (term : Term) :
    (∀ node ∈ visited term, OrderIndependent collator node) ↔ ClearThroughout collator term := by
  induction term with
  | atom symbol =>
    refine ⟨fun _ kind args inside => ?_, fun _ node inside reducers _ => ?_⟩
    · rw [visited, List.mem_singleton] at inside
      cases inside
    · rw [visited, List.mem_singleton] at inside
      subst inside
      rw [canonicalTerm, canonicalizeRecursive, canonicalizeRecursive]
  | compound kind args inductionHypothesis =>
    have nodes : ∀ node, node ∈ visited (.compound kind args) ↔
        node = .compound kind args ∨ ∃ arg ∈ args, node ∈ visited arg := by
      intro node
      rw [visited, visitedArgs_eq, List.mem_cons, List.mem_flatMap]
    constructor
    · intro independent inner innerArgs inside normals argsDone
      have nested : ∀ arg ∈ args, ∀ node ∈ visited arg, OrderIndependent collator node :=
        fun arg member node deep =>
          independent node ((nodes node).mpr (Or.inr ⟨arg, member, deep⟩))
      rcases (nodes _).mp inside with equal | ⟨arg, member, deep⟩
      · obtain ⟨rfl, rfl⟩ := Term.compound.inj equal
        exact clear_of_orderIndependent
          (fun arg member => nested arg member arg (self_mem_visited arg))
          (independent _ (self_mem_visited _)) argsDone
      · exact (inductionHypothesis arg member).mp (nested arg member) inner innerArgs deep
          normals argsDone
    · intro clear
      have nested : ∀ arg ∈ args, ∀ node ∈ visited arg, OrderIndependent collator node := by
        intro arg member
        refine (inductionHypothesis arg member).mpr fun inner innerArgs deep => ?_
        exact clear inner innerArgs ((nodes _).mpr (Or.inr ⟨arg, member, deep⟩))
      intro node inside
      rcases (nodes node).mp inside with rfl | ⟨arg, member, deep⟩
      · exact orderIndependent_compound
          (fun arg member => nested arg member arg (self_mem_visited arg))
          (clear kind args (self_mem_visited _))
      · exact nested arg member node deep

end Throughout

/-- The registry with the contradiction before the splice. -/
def contradictionFirst (collator : Collator) : List TermReducer :=
  conjunctionContradiction id :: flattenNested collator :: dedupeArgs id collator ::
    (termReducers id collator).drop 3

theorem contradictionFirst_perm (collator : Collator) :
    (contradictionFirst collator).Perm (termReducers id collator) := by
  have middle : (conjunctionContradiction id :: ([flattenNested collator, dedupeArgs id collator] ++
      (termReducers id collator).drop 3)).Perm ([flattenNested collator, dedupeArgs id collator] ++
        conjunctionContradiction id :: (termReducers id collator).drop 3) :=
    List.perm_middle.symm
  exact middle

/-- `(a & b) & --(a & b)` is `FALSE` when the contradiction is offered before the splice, and a
conjunction of three in the declared order. -/
theorem canonicalizeRecursive_depends_on_order :
    ¬ ∀ (collator : Collator) (term : Term) (reducers : List TermReducer),
      reducers.Perm (termReducers id collator) →
        (canonicalizeRecursive reducers collator term).map termKey =
          (canonicalTerm id collator term).map termKey := by
  intro same
  exact absurd (same codePointCollator
    (.compound .conjunction [.compound .conjunction [.atom "a", .atom "b"],
      .compound .negation [.compound .conjunction [.atom "a", .atom "b"]]])
    (contradictionFirst codePointCollator) (contradictionFirst_perm codePointCollator)) (by decide)

end Senars.Terms
