/-
This file is when `prolog-resolution` is complete. A clause is used under its own
variable names, so what shares a name with it is bound along with it, and answers of
clauses renamed apart are missed. The goal is answered in full exactly if each answer
is still reached under those names.

For a fact without variables that is a matter of looking at it. The fact is a clause
itself, so one step suffices to reach it: it is missed if a compound stands where the
goal has a variable, as a compound is never put in for one.
-/

import Senars.Prolog.Answers

namespace Senars.Prolog

open Library Terms Unify Query Senars.Algebra

/-! ### Facts -/

/-- A term that is a clause without a body, has no variable and is not nested too deep for the
walk. -/
structure PlainFact (answer : Term) : Prop where
  variableFree : VariableFree answer
  shallow : termDepth answer < Unify.maxDepth
  notImplication : answer.kind? ≠ some .implication
  notEquivalence : answer.kind? ≠ some .equivalence

/-- A term is the goal with atoms in place of its variables. -/
def PutsAtoms (goal answer : Term) : Prop :=
  ∃ bindings, instantiate bindings goal = answer ∧
    ∀ name ∈ termLanguage.variablesOf goal, isCompound (instantiate bindings (.atom name)) = false

section Facts

variable {collator : Collator}

theorem instantiate_atom_eq {first second term}
    (same : instantiate first term = instantiate second term) {name}
    (inside : .atom name ∈ visited term) :
    instantiate first (.atom name) = instantiate second (.atom name) := by
  induction term with
  | atom symbol =>
    obtain rfl : name = symbol := Term.atom.inj (List.mem_singleton.mp inside)
    exact same
  | compound kind args ih =>
    rw [visited, visitedArgs_eq] at inside
    obtain ⟨arg, member, inside⟩ :=
      List.mem_flatMap.mp ((List.mem_cons.mp inside).resolve_left (by rintro ⟨⟩))
    rw [instantiate_compound, instantiate_compound] at same
    exact ih arg member
      (List.map_inj_left.mp (Term.compound.inj same).2 arg member) inside

theorem applies_empty (term : Term) : Applies (narseseDialect collator) .empty term term := by
  induction term with
  | atom symbol =>
    cases named : (narseseDialect collator).variableName (.atom symbol) with
    | none => exact (applies_childless_iff named rfl).mpr rfl
    | some name => exact .unbound named (OrderedMap.get_empty name)
  | compound kind args ih =>
    by_cases childless : args = []
    · exact (applies_childless_iff rfl childless).mpr rfl
    · exact (applies_children_iff rfl childless).mpr
        ⟨args, List.forall₂_same.mpr ih, if_pos rfl⟩

theorem applies_instantiate {work term} (free : VariableFree (instantiate work.get term))
    (canonical : Canonical termKey collator (instantiate work.get term))
    (atoms : ∀ name ∈ termLanguage.variablesOf term,
      isCompound (instantiate work.get (.atom name)) = false) :
    Applies (narseseDialect collator) work term (instantiate work.get term) := by
  induction term with
  | atom symbol =>
    by_cases isVariable : isVariableSymbol symbol = true
    · have named : (narseseDialect collator).variableName (.atom symbol) = some symbol :=
        if_pos isVariable
      have atom := atoms symbol ⟨isVariable, List.mem_singleton_self _⟩
      cases bound : work.get symbol with
      | none =>
        have stays : instantiate work.get (.atom symbol) = .atom symbol := by
          rw [instantiate, if_pos isVariable, bound, Option.getD_none]
        rw [stays, variableFree_atom] at free
        exact absurd (isVariable.symm.trans free) (by simp)
      | some value =>
        have becomes := instantiate_variable isVariable bound
        rw [becomes] at free atom ⊢
        cases value with
        | compound kind args => cases atom
        | atom other =>
          have plain : (narseseDialect collator).variableName (.atom other) = none :=
            variableName_of_variableFree free
          refine (applies_bound_iff named bound).mpr
            ⟨.atom other, (applies_childless_iff plain rfl).mpr rfl, ?_⟩
          split
          · rename_i equal
            rw [beq_iff_eq.mp (equal : (other == symbol) = true)]
          · rfl
    · have plain : (narseseDialect collator).variableName (.atom symbol) = none :=
        if_neg isVariable
      rw [instantiate, if_neg isVariable]
      exact (applies_childless_iff plain rfl).mpr rfl
  | compound kind args ih =>
    rw [instantiate_compound] at free canonical ⊢
    by_cases childless : args = []
    · subst childless
      exact (applies_childless_iff rfl rfl).mpr rfl
    refine (applies_children_iff rfl childless).mpr
      ⟨args.map (instantiate work.get), ?_, ?_⟩
    · refine List.forall₂_map_right_iff.mpr (List.forall₂_same.mpr fun arg member => ?_)
      have inside := List.mem_map_of_mem (f := instantiate work.get) member
      refine ih arg member (variableFree_compound.mp free _ inside)
        (canonical.args _ inside) fun name occurs => atoms name ⟨occurs.1, ?_⟩
      rw [visited, visitedArgs_eq]
      exact List.mem_cons_of_mem _ (List.mem_flatMap.mpr ⟨arg, member, occurs.2⟩)
    · split
      · rename_i same
        exact congrArg (fun others => Except.ok (Term.compound kind others)) same.symm
      · exact canonical.createCompound_eq

variable {premises : Premises collator} {config : PrologConfig} {goal : Goal collator}
  {answer : Term}

section

variable (fact : PlainFact answer) (holds : premises.Holds answer)

include fact holds

theorem PlainFact.mem_findHornClauses : ⟨answer, []⟩ ∈ findHornClauses premises.memory := by
  obtain ⟨concept, resident, rfl, believed⟩ := holds
  refine List.mem_flatMap.mpr ⟨_, resident, ?_⟩
  obtain ⟨belief, top⟩ := Option.isSome_iff_exists.mp believed
  unfold clausesOf
  simp only [top, Option.isNone_some, Bool.false_eq_true, if_false]
  have noImplication := fact.notImplication
  have noEquivalence := fact.notEquivalence
  split
  · rename_i same
    rw [show concept.term = _ from same] at noImplication
    exact absurd rfl noImplication
  · rename_i same
    rw [show concept.term = _ from same] at noEquivalence
    exact absurd rfl noEquivalence
  · exact List.mem_singleton_self _

theorem PlainFact.comes (atoms : PutsAtoms goal.term answer) :
    Comes premises goal.term (findHornClauses premises.memory) 1 (initialState goal.term)
      answer := by
  obtain ⟨bindings, becomes, each⟩ := atoms
  have nothing : Within bindings (.empty : Substitution Term) := fun name value found =>
    absurd (OrderedMap.get_empty name ▸ found) (by simp)
  obtain ⟨walk, unified⟩ : ∃ walk, descend (narseseDialect collator) premises.identical true
      maxDepth goal.term (instantiate bindings goal.term) { work := .empty, added := [] } =
        some walk := by
    obtain ⟨walk, unified, -⟩ := descend_succeeds bindings goal.term
      { work := .empty, added := [] } (becomes ▸ fact.variableFree) (becomes ▸ fact.shallow) nothing
    exact ⟨walk, unified⟩
  rw [becomes] at unified
  have matched := descend_matched premises.identical_sound goal.term answer _ walk
    fact.variableFree goodValues_empty unified
  refine .resolve ⟨answer, []⟩ (fact.mem_findHornClauses holds)
    (.resolve rfl (applies_empty _) (applies_empty _) (applies_empty _) unified .nil) (.done ?_)
  rw [← matched.equal]
  refine applies_instantiate (matched.equal ▸ fact.variableFree)
    (matched.equal ▸ holds.believes.2.canonical) fun name inside => ?_
  rw [instantiate_atom_eq (matched.equal.trans becomes.symm) inside.2]
  exact each name inside

theorem PlainFact.finds_iff (isInstance : ∃ bindings, instantiate bindings goal.term = answer)
    (deep : 1 < config.depth) :
    Finds premises goal.term (findHornClauses premises.memory) config.depth
      (initialState goal.term) answer ↔ PutsAtoms goal.term answer := by
  constructor
  · rintro ⟨steps, _, comes⟩
    obtain ⟨subst, values, applies⟩ := comes.applies
      (goodClauses_findHornClauses premises.memory) (goodState_initialState goal)
    obtain ⟨bindings, rfl⟩ := isInstance
    exact ⟨bindings, rfl, fun name inside => not_isCompound_of_weight_le
      (Applies.weight_le values goal.built.canonical applies) inside.2⟩
  · exact fun atoms => ⟨1, deep, fact.comes holds atoms⟩

end

end Facts

/-! ### When the goal is answered in full -/

/-- An answer is still reached with the clauses under their own names. -/
structure FoundUnderOwnNames {collator : Collator} (premises : Premises collator)
    (config : PrologConfig) (goal : Goal collator) (answer : Term) : Prop where
  /-- No branch goes on substituting for ever. -/
  ends : SearchEnds premises goal.term (findHornClauses premises.memory) config.depth
    (initialState goal.term)
  positive : answer.kind? ≠ some .negation
  facts : PlainFact answer → PutsAtoms goal.term answer
  others : ¬ PlainFact answer → ∃ steps < config.depth,
    Comes premises goal.term (findHornClauses premises.memory) steps (initialState goal.term)
      answer

/-- What is implied by `q` and mentions `$x`, as the goal does. -/
def sharing : Term :=
  .compound .implication [.atom "q", .compound .implication [.atom "c", .atom "$x"]]

def cImpliesB : Term := .compound .implication [.atom "c", .atom "b"]

/-- What implies `b`? -/
def whatImpliesB : Term := .compound .implication [.atom "$x", .atom "b"]

theorem factoryBuilt_atom {symbol} (accepted : atomOf symbol = .ok (.atom symbol)) :
    FactoryBuilt codePointCollator (.atom symbol) :=
  .atom symbol _ accepted

theorem factoryBuilt_implication {first second}
    (firstBuilt : FactoryBuilt codePointCollator first)
    (secondBuilt : FactoryBuilt codePointCollator second)
    (built : createCompound termKey codePointCollator .implication [first, second] =
      .ok (.compound .implication [first, second])) :
    FactoryBuilt codePointCollator (.compound .implication [first, second]) := by
  refine .compound .implication [first, second] _ (fun arg member => ?_) built
  rcases List.mem_cons.mp member with rfl | rest
  · exact firstBuilt
  · exact List.mem_singleton.mp rest ▸ secondBuilt

/-- A concept that believes its term. -/
def believing (term : Term) (built : FactoryBuilt codePointCollator term) :
    Concept codePointCollator where
  term := term
  built := built
  priority := 1
  beliefBag :=
    [{ term := term
       truth := some (normalizeTruth 1 (.finite (9 / 10)))
       stamp := .createInput "belief" }]

def qConcept : Concept codePointCollator := believing (.atom "q") (factoryBuilt_atom (by decide))

def sharingConcept : Concept codePointCollator :=
  believing sharing <| factoryBuilt_implication (factoryBuilt_atom (by decide))
    (factoryBuilt_implication (factoryBuilt_atom (by decide)) (factoryBuilt_atom (by decide))
      (by decide)) (by decide)

def cImpliesBConcept : Concept codePointCollator :=
  believing cImpliesB <| factoryBuilt_implication (factoryBuilt_atom (by decide))
    (factoryBuilt_atom (by decide)) (by decide)

theorem sound_decide_eq (left right : Term) (same : decide (left = right) = true) :
    left = right :=
  of_decide_eq_true same

def sharingPremises : Premises codePointCollator where
  memory :=
    { concepts := ⟨[(termKey (.atom "q"), qConcept), (termKey sharing, sharingConcept),
        (termKey cImpliesB, cImpliesBConcept)], by decide⟩
      keyed := by
        intro entry member
        simp only [List.mem_cons, List.not_mem_nil, or_false] at member
        rcases member with rfl | rfl | rfl <;> rfl }
  identical left right := decide (left = right)
  identical_sound := sound_decide_eq
  createInput count := .createInput (toString count)

def sharingGoal : Goal codePointCollator where
  term := whatImpliesB
  built := factoryBuilt_implication (factoryBuilt_atom (by decide)) (factoryBuilt_atom (by decide))
    (by decide)

theorem findHornClauses_sharing : findHornClauses sharingPremises.memory =
    [⟨.atom "q", []⟩, ⟨.compound .implication [.atom "c", .atom "$x"], [.atom "q"]⟩,
      ⟨.atom "b", [.atom "c"]⟩] := rfl

/-- The clause's variable under another name. -/
def freshNames : String → Option Term := fun name => some (.atom (Equiv.swap "$x" "$y" name))

theorem freshNames_isRenaming : termLanguage.IsRenaming freshNames := by
  refine ⟨Equiv.swap "$x" "$y", fun name => ?_, rfl⟩
  rw [Equiv.swap_apply_def]
  split_ifs with first second
  · rw [first]
    decide
  · rw [second]
    decide
  · rfl

/-- `$x` is `c`, and what is under the fresh name is `b`. -/
def answerBindings : String → Option Term := fun name =>
  if name = "$x" then some (.atom "c") else if name = "$y" then some (.atom "b") else none

theorem answerBindings_mostGeneral : termLanguage.MostGeneral answerBindings whatImpliesB
    (.compound .implication [.atom "c", .atom "$y"]) := by
  have unifies : instantiate answerBindings whatImpliesB =
      instantiate answerBindings (.compound .implication [.atom "c", .atom "$y"]) := by decide
  refine TermLanguage.mostGeneral_of_absorbed unifies fun others same term => ?_
  have parts : instantiate others whatImpliesB =
      instantiate others (.compound .implication [.atom "c", .atom "$y"]) := same
  simp only [whatImpliesB, instantiate_compound, List.map_cons, List.map_nil,
    Term.compound.injEq, List.cons.injEq, true_and, and_true] at parts
  refine instantiate_absorbed (fun name value _ bound => ?_) term
  unfold answerBindings at bound
  split_ifs at bound with first second
  · rw [← Option.some.inj bound, first]
    exact parts.1.symm
  · rw [← Option.some.inj bound, second]
    exact parts.2

theorem cImpliesB_isAnswer : IsAnswer sharingPremises {} sharingGoal cImpliesB := by
  refine ⟨⟨cImpliesBConcept, ?_, rfl, rfl⟩, 2, by decide, ?_⟩
  · exact List.mem_cons_of_mem _ (List.mem_cons_of_mem _ List.mem_cons_self)
  let clause : Clause := ⟨.compound .implication [.atom "c", .atom "$x"], [.atom "q"]⟩
  have renamed : termLanguage.rename freshNames clause =
      ⟨.compound .implication [.atom "c", .atom "$y"], [.atom "q"]⟩ := by decide
  have apart : ∀ name ∈ termLanguage.variablesOf whatImpliesB,
      name ∉ termLanguage.clauseVariables (termLanguage.rename freshNames clause) := by
    rw [renamed]
    rintro name ⟨isVariable, inside⟩ ⟨term, member, -, other⟩
    simp only [whatImpliesB, visited, visitedArgs, List.mem_cons, List.append_nil,
      List.not_mem_nil, or_false, List.singleton_append, Term.atom.injEq] at inside
    rcases inside with same | rfl | rfl
    · cases same
    · simp only [List.mem_cons, List.not_mem_nil, or_false] at member
      rcases member with rfl | rfl <;> exact absurd other (by decide)
    · exact absurd isVariable (by decide)
  refine .resolve clause freshNames answerBindings
    (List.mem_cons_of_mem _ List.mem_cons_self) freshNames_isRenaming (fun term member => ?_) ?_ ?_
  · obtain rfl : term = whatImpliesB := by simpa [sharingGoal] using member
    exact apart
  · rw [renamed]
    exact answerBindings_mostGeneral
  · refine .resolve ⟨.atom "q", []⟩ (fun name => some (.atom name)) (fun _ => none)
      List.mem_cons_self ⟨Equiv.refl String, fun _ => rfl, rfl⟩ ?_ ?_ (.done _)
    · rintro _ _ name ⟨isVariable, _⟩ ⟨term, member, -, other⟩
      obtain rfl : term = .atom "q" := List.mem_singleton.mp member
      obtain rfl : name = "q" := Term.atom.inj (List.mem_singleton.mp other)
      exact absurd isVariable (by decide)
    · exact TermLanguage.mostGeneral_of_absorbed rfl fun others _ term =>
        congrArg (instantiate others) (instantiate_none term)

end Senars.Prolog
