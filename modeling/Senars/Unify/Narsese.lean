/-
This file is the Narsese unifier: how it reads a term, and what follows for it
from the general results.

Terms are read shallowly. An atom equals an atom of the same symbol, and a
compound equals anything, since its head is its kind and its arguments are the
walk's business. Application asks the same question about a variable and what
replaces it, so a compound masks every variable bound to it.
-/

import Senars.Terms.Symbols
import Senars.Unify.Soundness

namespace Senars.Unify

open Library Terms

/-! ### The dialect -/

/-- Equality of a term's own payload. -/
def sameTerm : Term → Term → Bool
  | .atom first, .atom second => first == second
  | .atom _, .compound _ _ => false
  | .compound _ _, _ => true

/-- How the unifier reads a Narsese term. -/
def narseseDialect (collator : Collator) : UnifierDialect Term TermError where
  variableName
    | .atom symbol => if isVariableSymbol symbol then some symbol else none
    | .compound _ _ => none
  key := termKey
  equal := sameTerm
  sameHead a b := a.kind? == b.kind?
  children := getArgs
  rebuild
    | .compound kind _, kids => createCompound termKey collator kind kids
    | .atom _, _ => .error .notATerm

/-- Whether a term is a compound. -/
def isCompound : Term → Bool
  | .atom _ => false
  | .compound _ _ => true

theorem sizeOf_getArgs (term kid : Term) (member : kid ∈ getArgs term) :
    sizeOf kid < sizeOf term := by
  cases term with
  | atom symbol => exact absurd member List.not_mem_nil
  | compound kind args =>
    have smaller := List.sizeOf_lt_of_mem member
    rw [getArgs_compound] at smaller
    rw [Term.compound.sizeOf_spec]
    omega

section Laws

variable {collator : Collator}

theorem variableName_atom {term name}
    (named : (narseseDialect collator).variableName term = some name) :
    term = .atom name ∧ isVariableSymbol name = true := by
  cases term with
  | atom symbol =>
    simp only [narseseDialect] at named
    split at named
    · rename_i isVariable
      exact Option.some.inj named ▸ ⟨rfl, isVariable⟩
    · cases named
  | compound kind args => cases named

theorem narseseDialect_lawful (collator : Collator) :
    LawfulDialect (narseseDialect collator) (Canonical termKey collator) isCompound sizeOf where
  smaller := sizeOf_getArgs
  childrenGood node kid good member := by
    cases node with
    | atom symbol => exact absurd member List.not_mem_nil
    | compound kind args => exact good.args kid member
  rebuilds node kids good kidsGood nonempty length := by
    cases node with
    | atom symbol => exact absurd rfl nonempty
    | compound kind args => exact createCompound_ok kidsGood (good.compoundOf_ok length)
  rebuildChildren node good nonempty := by
    cases node with
    | atom symbol => exact absurd rfl nonempty
    | compound kind args => exact good.createCompound_eq
  sameVariable left right name leftNamed rightNamed :=
    (variableName_atom leftNamed).1.trans (variableName_atom rightNamed).1.symm
  sameLeaf left right _ _ head leftChildless rightChildless equal := by
    cases left with
    | atom symbol =>
      cases right with
      | atom other => rw [beq_iff_eq.mp (equal : (symbol == other) = true)]
      | compound kind args => cases equal
    | compound kind args =>
      cases right with
      | atom other => cases head
      | compound otherKind otherArgs =>
        have kinds : kind = otherKind := Option.some.inj (beq_iff_eq.mp head)
        have leftArgs : args = [] := leftChildless
        have rightArgs : otherArgs = [] := rightChildless
        rw [kinds, leftArgs, rightArgs]
  equalVariable value term name named := by
    obtain ⟨rfl, -⟩ := variableName_atom named
    cases value with
    | atom symbol =>
      refine ⟨by simp [isCompound], fun equal => Or.inr ?_⟩
      rw [beq_iff_eq.mp (equal : (symbol == name) = true)]
    | compound kind args => exact ⟨fun _ => rfl, fun _ => Or.inl rfl⟩
  masksPlain value masking := by
    cases value with
    | atom symbol => cases masking
    | compound kind args => rfl
  masksRebuild node kids value nonempty clear _ := by
    cases node with
    | atom symbol => exact absurd rfl nonempty
    | compound kind args => cases clear

theorem not_mentions {term}
    (ground : ∀ symbol, .atom symbol ∈ visited term → isVariableSymbol symbol = false)
    (name : String) : ¬ Mentions (narseseDialect collator) name term := by
  intro mentions
  induction mentions with
  | here node named =>
    obtain ⟨rfl, isVariable⟩ := variableName_atom named
    exact absurd (isVariable.symm.trans (ground name List.mem_cons_self)) (by simp)
  | inside node kid plain member deeper ih =>
    cases node with
    | atom symbol => exact absurd member List.not_mem_nil
    | compound kind args =>
      refine ih fun symbol inside => ground symbol ?_
      rw [visited, visitedArgs_eq]
      exact List.mem_cons_of_mem _ (List.mem_flatMap.mpr ⟨kid, member, inside⟩)

/-- The arguments of `unify(a, b, subst, enableOccursCheck)`. -/
def termCall (a b : Term) (subst : Substitution Term) (enableOccursCheck : Bool)
    (identical : Term → Term → Bool) : Call Term where
  a := a
  b := b
  subst := subst
  options := { occursCheck := some enableOccursCheck }
  identical := identical

end Laws

/-! ### Soundness -/

section Sound

variable {collator : Collator} {unifier : Unifier Term} {a b : Term} {subst : Substitution Term}
  {identical : Term → Term → Bool} {result : Substitution Term}

/-- The answer for two factory-built terms extends the substitution. It makes the terms one if
at every pair the walk visits, nothing that is met or bound masks a variable. -/
theorem unify_terms_sound (aBuilt : FactoryBuilt collator a) (bBuilt : FactoryBuilt collator b)
    (substBuilt : GoodValues (FactoryBuilt collator) subst)
    (acyclic : AcyclicBindings (narseseDialect collator) subst)
    (sound : ∀ left right, identical left right = true → left = right)
    (answers : MemoAnswers (narseseDialect collator) unifier (termCall a b subst true identical))
    (uncut : Uncut (narseseDialect collator) (termCall a b subst true identical))
    (done : (unifier.unify (narseseDialect collator) (termCall a b subst true identical)).1 =
      some result) :
    subst.Extends result ∧
      ((∀ visit ∈ (termCall a b subst true identical).visits (narseseDialect collator),
          Agrees (narseseDialect collator) identical isCompound visit) →
        Unified (narseseDialect collator) result a b) := by
  refine ⟨unify_extends answers uncut done, fun agree => ?_⟩
  exact unify_unified (narseseDialect_lawful collator) sound answers rfl acyclic aBuilt.canonical
    bBuilt.canonical (fun name value found => (substBuilt name value found).canonical) uncut agree
    done

end Sound

/-- Unifying `?x` with `a` makes them one. -/
theorem unify_terms_sound_atom :
    OrderedMap.Extends .empty (OrderedMap.empty.set "?x" (Term.atom "a")) ∧
      Unified (narseseDialect codePointCollator) (OrderedMap.empty.set "?x" (.atom "a"))
        (.atom "?x") (.atom "a") := by
  have ground : ∀ other, ¬ Mentions (narseseDialect codePointCollator) other (.atom "a") :=
    not_mentions (by simp [visited]; decide)
  let call := termCall (.atom "?x") (.atom "a") .empty true fun left right => decide (left = right)
  obtain ⟨only, uncut⟩ : call.visits (narseseDialect codePointCollator) = [.start call.a call.b] ∧
      Uncut (narseseDialect codePointCollator) call := uncut_of_ground rfl rfl ground
  have noBindings : GoodValues (FactoryBuilt codePointCollator) (.empty : Substitution Term) :=
    goodValues_empty
  obtain ⟨extended, unified⟩ := unify_terms_sound (.atom "?x" _ (by decide))
    (.atom "a" _ (by decide)) noBindings acyclicBindings_empty
    (fun left right same => of_decide_eq_true same) (memoAnswers_new {} call) uncut rfl
  refine ⟨extended, unified fun visit inside => ?_⟩
  obtain rfl := List.mem_singleton.mp (only ▸ inside)
  exact agrees_of_ground rfl rfl

/-- Unifying a variable with a statement binds it, and application leaves it in place. -/
theorem unify_variable_with_statement_unsound :
    ¬ ∀ (a b : Term) (subst result : Substitution Term),
      FactoryBuilt codePointCollator a → FactoryBuilt codePointCollator b →
      GoodValues (FactoryBuilt codePointCollator) subst →
      AcyclicBindings (narseseDialect codePointCollator) subst →
      ((Unifier.new {}).unify (narseseDialect codePointCollator)
        (termCall a b subst true fun left right => decide (left = right))).1 = some result →
      Unified (narseseDialect codePointCollator) result a b ∧ subst.Extends result := by
  intro claim
  let statement := Term.compound .inheritance [.atom "a", .atom "b"]
  have built : FactoryBuilt codePointCollator statement := by
    refine .compound .inheritance [.atom "a", .atom "b"] _ (fun arg member => ?_) (by decide)
    rcases List.mem_cons.mp member with rfl | rest
    · exact .atom "a" _ (by decide)
    · rw [List.mem_singleton.mp rest]
      exact .atom "b" _ (by decide)
  obtain ⟨⟨value, left, right⟩, -⟩ := claim (.atom "?x") statement .empty
    (OrderedMap.empty.set "?x" statement) (.atom "?x" _ (by decide)) built goodValues_empty
    acyclicBindings_empty rfl
  have stays : Applies (narseseDialect codePointCollator) (OrderedMap.empty.set "?x" statement)
      (.atom "?x") (.atom "?x") := applies_iff.mpr ⟨3, by rfl⟩
  have whole : Applies (narseseDialect codePointCollator) (OrderedMap.empty.set "?x" statement)
      statement statement := applies_iff.mpr ⟨3, by rfl⟩
  exact absurd ((left.unique stays).symm.trans (right.unique whole)) (by decide)

/-! ### Deep nesting -/

/-- A term inside so many extensional sets. -/
def nestedSet : Nat → Term → Term
  | 0, term => term
  | depth + 1, term => .compound .setExt [nestedSet depth term]

/-- The occurs check misses a variable nested as deep as its cap, and the answer is cyclic. -/
theorem unify_nested_cyclic :
    ¬ ∀ (a b : Term) (subst result : Substitution Term),
      AcyclicBindings (narseseDialect codePointCollator) subst →
      ((Unifier.new {}).unify (narseseDialect codePointCollator)
        (termCall a b subst true fun left right => decide (left = right))).1 = some result →
      AcyclicBindings (narseseDialect codePointCollator) result ∧
        ∀ term, Terminates (narseseDialect codePointCollator) result term := by
  intro claim
  have mentions : ∀ depth, Mentions (narseseDialect codePointCollator) "?x"
      (nestedSet depth (.atom "?x")) := by
    intro depth
    induction depth with
    | zero => exact .here _ rfl
    | succ depth inductionHypothesis =>
      exact .inside _ _ rfl List.mem_cons_self inductionHypothesis
  have acyclic := (claim (.atom "?x") (nestedSet 64 (.atom "?x")) .empty
    (OrderedMap.empty.set "?x" (nestedSet 64 (.atom "?x"))) acyclicBindings_empty rfl).1
  exact acyclic "?x" (.single ⟨_, rfl, mentions 64⟩)

/-- Unifying `?x` with the set of `a` makes no cycle. -/
theorem unify_acyclic_set :
    AcyclicBindings (narseseDialect codePointCollator)
        (OrderedMap.empty.set "?x" (.compound .setExt [.atom "a"])) ∧
      ∀ term, Terminates (narseseDialect codePointCollator)
        (OrderedMap.empty.set "?x" (.compound .setExt [.atom "a"])) term := by
  let call := termCall (.atom "?x") (.compound .setExt [.atom "a"]) .empty true fun left right =>
    decide (left = right)
  have ground : ∀ other, ¬ Mentions (narseseDialect codePointCollator) other call.b :=
    not_mentions (by simp [call, termCall, visited, visitedArgs]; decide)
  have uncut : Uncut (narseseDialect codePointCollator) call := (uncut_of_ground rfl rfl ground).2
  exact (unify_acyclic sizeOf_getArgs (memoAnswers_new {} call) rfl acyclicBindings_empty rfl).1
    uncut.found

end Senars.Unify
