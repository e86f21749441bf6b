/-
This file is what a complete search owes: each believed term that is an answer of the
goal, by resolution with clauses that are renamed apart. A search with room for all
its results returns exactly those believed terms that the goal becomes under the
clauses' own names, and nothing if its substituting does not come to an end. A task
for a negation is about what it negates, so no negation is returned.

That the task of one term is not taken for another's rests on weights: putting terms
in for variables makes a term heavier, what the search puts in does not.
-/

import Mathlib.Logic.Equiv.Defs
import Senars.Prolog.OwnNames
import Senars.Terms.Weight

namespace Senars.Prolog

open Library Terms Unify Query Senars.Algebra

/-! ### Terms as a language -/

theorem instantiate_none (term : Term) : instantiate (fun _ => none) term = term := by
  induction term with
  | atom symbol =>
    rw [instantiate]
    split <;> rfl
  | compound kind args ih =>
    rw [instantiate_compound]
    refine congrArg _ ?_
    conv_rhs => rw [← List.map_id args]
    exact List.map_congr_left ih

/-- First these bindings, then those. -/
def composeBindings (second first : String → Option Term) : String → Option Term := fun name =>
  match first name with
  | some value => some (instantiate second value)
  | none => second name

theorem instantiate_compose (second first : String → Option Term) (term : Term) :
    instantiate (composeBindings second first) term =
      instantiate second (instantiate first term) := by
  induction term with
  | atom symbol =>
    by_cases isVariable : isVariableSymbol symbol = true
    · cases bound : first symbol with
      | some value =>
        rw [instantiate_variable isVariable bound]
        exact instantiate_variable isVariable (by rw [composeBindings, bound])
      | none =>
        have stays : instantiate first (.atom symbol) = .atom symbol := by
          rw [instantiate, if_pos isVariable, bound, Option.getD_none]
        have same : composeBindings second first symbol = second symbol := by
          rw [composeBindings, bound]
        rw [stays, instantiate, instantiate, same]
    · simp only [instantiate, if_neg isVariable]
  | compound kind args ih =>
    simp only [instantiate_compound, List.map_map]
    exact congrArg _ (List.map_congr_left ih)

theorem instantiate_absorbed {bindings others}
    (each : ∀ name value, isVariableSymbol name = true → bindings name = some value →
      instantiate others value = instantiate others (.atom name)) (term : Term) :
    instantiate others (instantiate bindings term) = instantiate others term := by
  induction term with
  | atom symbol =>
    by_cases isVariable : isVariableSymbol symbol = true
    · cases bound : bindings symbol with
      | some value =>
        rw [instantiate_variable isVariable bound]
        exact each symbol value isVariable bound
      | none =>
        have stays : instantiate bindings (.atom symbol) = .atom symbol := by
          rw [instantiate, if_pos isVariable, bound, Option.getD_none]
        rw [stays]
    · have stays : instantiate bindings (.atom symbol) = .atom symbol := by
        rw [instantiate, if_neg isVariable]
      rw [stays]
  | compound kind args ih =>
    simp only [instantiate_compound, List.map_map]
    exact congrArg _ (List.map_congr_left ih)

/-- Terms, with bindings put in place. Other variables are a permutation of the names. -/
def termLanguage : TermLanguage Term (String → Option Term) String where
  act := instantiate
  identity _ := none
  compose := composeBindings
  act_identity := instantiate_none
  act_compose := instantiate_compose
  variablesOf term := {name | isVariableSymbol name = true ∧ .atom name ∈ visited term}
  IsRenaming bindings := ∃ names : Equiv.Perm String,
    (∀ name, isVariableSymbol (names name) = isVariableSymbol name) ∧
      bindings = fun name => some (.atom (names name))

/-! ### What is owed -/

/-- A goal of the term factory. -/
structure Goal (collator : Collator) where
  term : Term
  built : FactoryBuilt collator term

section Owed

variable {collator : Collator} (premises : Premises collator) (config : PrologConfig)
  (goal : Goal collator) (answer : Term)

def PrologConfig.depth : ℕ := config.maxDepth.getD defaultMaxDepth

/-- The term of a resident concept is believed. -/
def Premises.Holds : Prop :=
  ∃ concept, premises.memory.Resident concept ∧ concept.term = answer ∧
    concept.topBelief.isSome

/-- A believed term is the answer of a refutation of the goal in fewer steps than the search is
deep. -/
def IsAnswer : Prop :=
  premises.Holds answer ∧ ∃ steps < config.depth,
    termLanguage.Refutes (findHornClauses premises.memory) steps goal.term [goal.term] answer

/-- With room for results and a stack that is deep enough, a task about the term is returned. -/
def Returns : Prop :=
  ∃ enough, ∀ maxResults, enough ≤ maxResults → ∃ needed, ∀ stack, needed ≤ stack →
    ∃ tasks, selectSecondary premises stack { config with maxResults := some maxResults }
        goal.term = .ok tasks ∧
      ∃ task ∈ tasks, task.term = answer

end Owed

/-! ### Weights -/

section Weights

variable {collator : Collator} {subst : Substitution Term}

theorem weight_le_instantiate (bindings : String → Option Term) (term : Term) :
    termWeight term ≤ termWeight (instantiate bindings term) := by
  induction term with
  | atom symbol => exact termWeight_pos _
  | compound kind args ih =>
    rw [instantiate_compound, termWeight_compound, termWeight_compound, List.map_map]
    exact Nat.add_le_add_right (List.sum_le_sum ih) 2

theorem not_isCompound_of_weight_le {bindings term}
    (light : termWeight (instantiate bindings term) ≤ termWeight term) {name}
    (inside : .atom name ∈ visited term) :
    isCompound (instantiate bindings (.atom name)) = false := by
  induction term with
  | atom symbol =>
    obtain rfl : name = symbol := Term.atom.inj (List.mem_singleton.mp inside)
    cases same : instantiate bindings (.atom name) with
    | atom _ => rfl
    | compound kind args =>
      rw [same, termWeight_compound, termWeight_atom] at light
      omega
  | compound kind args ih =>
    rw [visited, visitedArgs_eq] at inside
    obtain ⟨arg, member, inside⟩ :=
      List.mem_flatMap.mp ((List.mem_cons.mp inside).resolve_left (by rintro ⟨⟩))
    refine ih arg member (not_lt.mp fun heavier => ?_) inside
    rw [instantiate_compound, termWeight_compound, termWeight_compound, List.map_map] at light
    have more := List.sum_lt_sum _ (termWeight ∘ instantiate bindings)
      (fun other _ => weight_le_instantiate bindings other) ⟨arg, member, heavier⟩
    omega

theorem canonical_operation_args {args}
    (canonical : Canonical termKey collator (.compound .operation args)) :
    ∃ op arg, args = [op, .compound .product arg] := by
  rcases compoundOf_cases canonical.rebuilt with folds | ⟨_, arity, same⟩
  · cases args with
    | nil => cases folds
    | cons => cases folds
  have two : args.length = 2 := by
    by_contra other
    rw [arityError, if_neg other] at arity
    cases arity
  obtain ⟨op, arg, rfl⟩ := List.length_eq_two.mp two
  have wrapped : [op, arg] = wrapOperationArgs .operation [op, arg] := (Term.compound.inj same).2
  rw [wrapOperationArgs] at wrapped
  split at wrapped
  · rename_i product
    cases arg with
    | atom _ => cases product
    | compound kind others => exact ⟨op, others, by rw [Option.some.inj product]⟩
  · simp only [List.cons.injEq, and_true, true_and] at wrapped
    exact ⟨op, [arg], by rw [← wrapped]⟩

theorem Applies.product {args value} (values : GoodValues (Canonical termKey collator) subst)
    (canonical : Canonical termKey collator (.compound .product args))
    (applies : Applies (narseseDialect collator) subst (.compound .product args) value) :
    value.kind? = some .product := by
  by_cases childless : args = []
  · rw [(applies_childless_iff rfl childless).mp applies]
    rfl
  · obtain ⟨others, each, rebuilt⟩ := (applies_children_iff rfl childless).mp applies
    split at rebuilt
    · rw [← Except.ok.inj rebuilt]
      rfl
    · have good : ∀ other ∈ others, Canonical termKey collator other := fun other member => by
        obtain ⟨arg, inside, argApplies⟩ := exists_left_of_forall₂ each member
        exact Applies.canonical values (canonical.args arg inside) argApplies
      rw [← Except.ok.inj ((createCompound_product good).symm.trans rebuilt)]
      rfl

theorem sum_weight_le {args others}
    (each : List.Forall₂ (Applies (narseseDialect collator) subst) args others)
    (lighter : ∀ arg ∈ args, ∀ value, Applies (narseseDialect collator) subst arg value →
      termWeight value ≤ termWeight arg) :
    (others.map termWeight).sum ≤ (args.map termWeight).sum := by
  induction each with
  | nil => exact le_rfl
  | cons applies _ ih =>
    obtain ⟨first, rest⟩ := List.forall_mem_cons.mp lighter
    exact add_le_add (first _ applies) (ih rest)

theorem Applies.weight_le {term value} (values : GoodValues (Canonical termKey collator) subst)
    (canonical : Canonical termKey collator term)
    (applies : Applies (narseseDialect collator) subst term value) :
    termWeight value ≤ termWeight term := by
  induction term generalizing value with
  | atom symbol =>
    cases named : (narseseDialect collator).variableName (.atom symbol) with
    | none => rw [(applies_childless_iff named rfl).mp applies]
    | some name =>
      cases bound : subst.get name with
      | none => rw [applies.unique (.unbound named bound)]
      | some found =>
        obtain ⟨next, -, rfl⟩ := (applies_bound_iff named bound).mp applies
        cases next with
        | atom _ => split <;> exact le_rfl
        | compound kind args => exact le_rfl
  | compound kind args ih =>
    by_cases childless : args = []
    · rw [(applies_childless_iff rfl childless).mp applies]
    obtain ⟨others, each, rebuilt⟩ := (applies_children_iff rfl childless).mp applies
    split at rebuilt
    · rw [← Except.ok.inj rebuilt]
    have good : ∀ other ∈ others, Canonical termKey collator other := fun other member => by
      obtain ⟨arg, inside, argApplies⟩ := exists_left_of_forall₂ each member
      exact Applies.canonical values (canonical.args arg inside) argApplies
    have bare : wrapOperationArgs kind others = others := by
      by_cases operation : kind = .operation
      · subst operation
        obtain ⟨op, inner, rfl⟩ := canonical_operation_args canonical
        cases each with
        | cons _ each =>
          cases each with
          | cons productApplies each =>
            cases each with
            | nil =>
              rw [wrapOperationArgs, if_pos (Applies.product values
                (canonical.args _ (List.mem_cons_of_mem _ List.mem_cons_self)) productApplies)]
      · unfold wrapOperationArgs
        split
        · exact absurd rfl operation
        · rfl
    rw [termWeight_compound]
    refine (createCompound_weight_le good bare rebuilt).trans (Nat.add_le_add_right ?_ 2)
    exact sum_weight_le each fun arg member value argApplies =>
      ih arg member (canonical.args arg member) argApplies

end Weights

/-! ### What is returned -/

section Returned

variable {collator : Collator} {premises : Premises collator} {config : PrologConfig}
  {goal : Goal collator} {answer : Term}

theorem goodClauses_findHornClauses (memory : Query.Memory collator) :
    GoodClauses collator (findHornClauses memory) := by
  intro clause member
  obtain ⟨⟨_, concept⟩, _, inside⟩ := List.mem_flatMap.mp member
  have canonical := concept.built.canonical
  unfold clausesOf at inside
  split at inside
  · cases inside
  split at inside
  · rename_i args same
    rw [show concept.term = _ from same] at canonical
    split at inside
    · rename_i a0 a1 _
      obtain ⟨first, rest⟩ := List.forall_mem_cons.mp canonical.args
      rw [List.mem_singleton.mp inside]
      simp [first, rest]
    · cases inside
  · rename_i args same
    rw [show concept.term = _ from same] at canonical
    split at inside
    · rename_i a0 a1 _
      obtain ⟨first, rest⟩ := List.forall_mem_cons.mp canonical.args
      rcases List.mem_cons.mp inside with rfl | inside
      · simp [first, rest]
      · rw [List.mem_singleton.mp inside]
        simp [first, rest]
    · cases inside
  · rw [List.mem_singleton.mp inside]
    simpa using canonical

theorem goodState_initialState (goal : Goal collator) :
    GoodState collator (initialState goal.term) :=
  ⟨by simpa [initialState] using goal.built.canonical, goodValues_empty⟩

theorem Comes.applies {goal clauses steps state} (goodClauses : GoodClauses collator clauses)
    (good : GoodState collator state) (comes : Comes premises goal clauses steps state answer) :
    ∃ subst, GoodValues (Canonical termKey collator) subst ∧
      Applies (narseseDialect collator) subst goal answer := by
  induction comes with
  | done applies => exact ⟨_, good.values, applies⟩
  | resolve clause member resolves _ ih =>
    exact ih (resolves.good (goodClauses clause member) good)

theorem Premises.IsTaskOf.term {term task} (isTask : premises.IsTaskOf term task)
    (canonical : Canonical termKey collator term) :
    task.term.kind? ≠ some .negation ∧
      (task.term = term ∨ term = .compound .negation [task.term]) := by
  obtain ⟨concept, belief, stamp, _, _, made⟩ := isTask
  let task' : Task := ⟨term, belief.truth, concept.priority, stamp⟩
  have termCanonical : Canonical termKey collator task'.term := canonical
  obtain ⟨other, otherMade, positive, about⟩ := canonicalTask_positive termCanonical
  cases otherMade.symm.trans made
  exact ⟨positive, about⟩

theorem Premises.Holds.believes (holds : premises.Holds answer) :
    premises.Believes answer ∧ FactoryBuilt collator answer := by
  obtain ⟨concept, resident, rfl, believed⟩ := holds
  obtain ⟨belief, top⟩ := Option.isSome_iff_exists.mp believed
  exact ⟨⟨concept, belief, (OrderedMap.get_eq_some_iff _ _ _).mpr resident, top⟩, concept.built⟩

theorem returns_iff (holds : premises.Holds answer)
    (isInstance : ∃ bindings, instantiate bindings goal.term = answer)
    (some : findHornClauses premises.memory ≠ []) :
    Returns premises config goal answer ↔
      SearchEnds premises goal.term (findHornClauses premises.memory) config.depth
          (initialState goal.term) ∧
        answer.kind? ≠ Option.some .negation ∧
        Finds premises goal.term (findHornClauses premises.memory) config.depth
          (initialState goal.term) answer := by
  have goodClauses := goodClauses_findHornClauses premises.memory
  have good := goodState_initialState goal
  generalize same : findHornClauses premises.memory = clauses at some goodClauses ⊢
  have nonempty : ¬ clauses.length = 0 := fun none => some (List.length_eq_zero_iff.mp none)
  let bound := (clauses.length + 1) ^ config.depth
  constructor
  · rintro ⟨enough, returned⟩
    obtain ⟨needed, atStack⟩ := returned (max enough (bound + 1)) (le_max_left _ _)
    obtain ⟨tasks, selected, task, member, rfl⟩ := atStack needed le_rfl
    rw [selectSecondary, same] at selected
    rw [if_neg nonempty] at selected
    obtain ⟨found, searched, taken⟩ := bind_eq_ok.mp selected
    have room : ([] : List Task).length + bound < max enough (bound + 1) := by
      rw [List.length_nil, Nat.zero_add]
      exact Nat.lt_of_succ_le (le_max_right _ _)
    obtain ⟨ends, new, whole, -, tells⟩ := sldResolve_tells room searched
    obtain rfl : found = new := whole
    rw [← Except.ok.inj taken] at member
    obtain ⟨term, finds, isTask⟩ := tells.sound task (List.mem_of_mem_take member)
    obtain ⟨steps, fewer, comes⟩ := finds
    obtain ⟨subst, values, applies⟩ := comes.applies goodClauses good
    have canonical := goal.built.canonical
    obtain ⟨positive, about⟩ := isTask.term (Applies.canonical values canonical applies)
    refine ⟨ends, positive, steps, fewer, ?_⟩
    rcases about with about | about
    · exact about ▸ comes
    · -- What negates an instance of the goal is too heavy.
      obtain ⟨bindings, instanced⟩ := isInstance
      have heavier := weight_le_instantiate bindings goal.term
      have light := Applies.weight_le values canonical applies
      rw [about, termWeight_compound, List.map_singleton, List.sum_singleton] at light
      rw [instanced] at heavier
      omega
  · rintro ⟨ends, positive, finds⟩
    refine ⟨bound + 1, fun maxResults room => ?_⟩
    obtain ⟨needed, searchOk⟩ :=
      sldResolve_ok maxResults goal.built.canonical goodClauses good ends
    refine ⟨needed, fun stack deep => ?_⟩
    obtain ⟨found, searched⟩ := searchOk stack deep []
    have roomy : ([] : List Task).length + bound < maxResults := by
      rw [List.length_nil, Nat.zero_add]
      exact Nat.lt_of_succ_le room
    obtain ⟨-, new, whole, fewer, tells⟩ := sldResolve_tells roomy searched
    obtain rfl : found = new := whole
    obtain ⟨believes, built⟩ := holds.believes
    obtain ⟨task, member, isTask⟩ := tells.complete answer finds believes
    refine ⟨found, ?_, task, member, ?_⟩
    · rw [selectSecondary, same]
      rw [if_neg nonempty]
      refine bind_eq_ok.mpr ⟨_, searched, ?_⟩
      exact congrArg Except.ok (List.take_of_length_le (fewer.trans (Nat.le_of_succ_le room)))
    · rcases (isTask.term built.canonical).2 with about | about
      · exact about
      · rw [about] at positive
        exact absurd rfl positive

end Returned

end Senars.Prolog
