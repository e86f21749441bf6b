/-
This file is the premise strategy `prolog-resolution`: the clauses it reads off the
believed concepts, the search that resolves a goal with them, depth first, and the
tasks it returns.

The clauses keep their own variable names, and one substitution is threaded through
every branch. The depth of the source counts upwards to `maxDepth`; here the depth
that is left counts down. Substituting has no bound of its own in the source, so it
is given a stack, and throws where that does not suffice. The unifier's memo is left
out; where its keys tell the calls apart it answers as the walk does.
-/

import Senars.Library.Refutations
import Senars.Query.Api

namespace Senars.Prolog

open Library Terms Unify Query Senars.Algebra

abbrev Clause : Type := HornClause Term

structure PrologConfig where
  maxDepth : Option ℕ := none
  maxResults : Option ℕ := none

structure ResolutionState where
  goals : List Term
  substitution : Substitution Term

/-- What a search throws. -/
inductive SearchError where
  | stackOverflow
  | term (error : TermError)
  | task (error : TaskError)

/-- What a search reads: the memory, which terms are one object, and the stamps that are
handed out to the tasks it makes. -/
structure Premises (collator : Collator) where
  memory : Query.Memory collator
  identical : Term → Term → Bool
  identical_sound : ∀ left right, identical left right = true → left = right
  createInput : ℕ → Stamp

/-- How deep a search goes, and how many results it collects, unless told otherwise. -/
def defaultMaxDepth : ℕ := 10

def defaultMaxResults : ℕ := 10

/-- How many of them are returned, unless told otherwise. -/
def limit : ℕ := 5

section Search

variable {collator : Collator}

/-- The clauses of one concept: none unless it is believed, else those its term is read as. -/
def clausesOf (concept : Concept collator) : List Clause :=
  if concept.topBelief.isNone then []
  else
    match concept.term with
    | .compound .implication args =>
      match args with
      | a0 :: a1 :: _ => [⟨a1, [a0]⟩]
      | _ => []
    | .compound .equivalence args =>
      match args with
      | a0 :: a1 :: _ => [⟨a0, [a1]⟩, ⟨a1, [a0]⟩]
      | _ => []
    | term => [⟨term, []⟩]

def findHornClauses (memory : Query.Memory collator) : List Clause :=
  memory.concepts.entries.flatMap fun entry => clausesOf entry.2

def createSecondaryTask (collator : Collator) (term : Term) (priority : JsNumber) (truth : Truth)
    (stamp : Stamp) : Except TaskError Task :=
  canonicalTask collator { term, truth, priority, stamp }

variable (premises : Premises collator) (stack : ℕ)

def applySubstitution (collator : Collator) (stack : ℕ) (term : Term) (subst : Substitution Term) :
    Except SearchError Term :=
  match apply (narseseDialect collator) subst stack term with
  | none => .error .stackOverflow
  | some (.error error) => .error (.term error)
  | some (.ok value) => .ok value

def unifyTerms (t1 t2 : Term) (subst : Substitution Term) :
    Except SearchError (Option (Substitution Term)) := do
  let first ← applySubstitution collator stack t1 subst
  let second ← applySubstitution collator stack t2 subst
  .ok ((solve (narseseDialect collator) premises.identical first second subst true).map Walk.work)

/-- What the goal has become is a result, if it is believed. -/
def pushAnswer (goal : Term) (subst : Substitution Term) (results : List Task) :
    Except SearchError (List Task) := do
  let finalTerm ← applySubstitution collator stack goal subst
  match premises.memory.getConcept finalTerm with
  | none => .ok results
  | some concept =>
    match concept.topBelief with
    | none => .ok results
    | some belief =>
      match createSecondaryTask collator finalTerm concept.priority belief.truth
        (premises.createInput results.length) with
      | .error error => .error (.task error)
      | .ok task => .ok (results ++ [task])

/-- Resolve a goal with every clause in turn, until there are results enough. -/
def resolveClauses (maxResults : ℕ)
    (resolve : ResolutionState → List Task → Except SearchError (List Task))
    (resolvedGoal : Term) (restGoals : List Term) (subst : Substitution Term) :
    List Clause → List Task → Except SearchError (List Task)
  | [], results => .ok results
  | clause :: rest, results => do
    match ← unifyTerms premises stack resolvedGoal clause.head subst with
    | none => resolveClauses maxResults resolve resolvedGoal restGoals subst rest results
    | some headSubst => do
      let newGoals ← (clause.body ++ restGoals).mapM fun goal =>
        applySubstitution collator stack goal headSubst
      let found ← resolve ⟨newGoals, headSubst⟩ results
      if maxResults ≤ found.length then .ok found
      else resolveClauses maxResults resolve resolvedGoal restGoals subst rest found

def sldResolve (goal : Term) (clauses : List Clause) (maxResults : ℕ) :
    ℕ → ResolutionState → List Task → Except SearchError (List Task)
  | 0, _, results => .ok results
  | remaining + 1, state, results =>
    if maxResults ≤ results.length then .ok results
    else
      match state.goals with
      | [] => pushAnswer premises stack goal state.substitution results
      | currentGoal :: restGoals => do
        let resolvedGoal ← applySubstitution collator stack currentGoal state.substitution
        resolveClauses premises stack maxResults (sldResolve goal clauses maxResults remaining)
          resolvedGoal restGoals state.substitution clauses results

/-- Where a search for a goal begins. -/
def initialState (goal : Term) : ResolutionState := ⟨[goal], .empty⟩

def selectSecondary (config : PrologConfig) (goal : Term) : Except SearchError (List Task) :=
  let clauses := findHornClauses premises.memory
  if clauses.length = 0 then .ok []
  else do
    let results ← sldResolve premises stack goal clauses
      (config.maxResults.getD defaultMaxResults) (config.maxDepth.getD defaultMaxDepth)
      (initialState goal) []
    .ok (results.take (config.maxResults.getD limit))

end Search

end Senars.Prolog
