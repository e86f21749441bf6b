/-
This file is what the search comes to. It tries every way of resolving the goals with
fewer clauses than its depth, each clause under its own variable names; so it returns
the tasks of the believed terms the goal becomes on these ways, once its bound on
results is out of reach. Where substituting goes on for ever on one of the ways, the
stack overflows and nothing is returned.

The search counts the depth that is left down, so both directions are proved by
induction on it, with an inner one over the clauses that are left to try.
-/

import Senars.Prolog.Resolution

namespace Senars.Prolog

open Library Terms Unify Query Senars.Algebra

variable {collator : Collator}

/-! ### Resolution under the clauses' own names -/

section OwnNames

variable (premises : Premises collator) (goal : Term) (clauses : List Clause)

/-- A state in which the first goal is resolved with a clause is followed by another. -/
inductive ResolvesTo (state : ResolutionState) (clause : Clause) : ResolutionState → Prop
  | resolve {currentGoal resolvedGoal first second : Term} {restGoals newGoals : List Term}
      {walk : Walk Term} (goals : state.goals = currentGoal :: restGoals)
      (resolved : Applies (narseseDialect collator) state.substitution currentGoal resolvedGoal)
      (goalApplies : Applies (narseseDialect collator) state.substitution resolvedGoal first)
      (headApplies : Applies (narseseDialect collator) state.substitution clause.head second)
      (unified : solve (narseseDialect collator) premises.identical first second
        state.substitution true = some walk)
      (goalsApply : List.Forall₂ (Applies (narseseDialect collator) walk.work)
        (clause.body ++ restGoals) newGoals) :
      ResolvesTo state clause ⟨newGoals, walk.work⟩

/-- With so many clauses the goals of a state are resolved away, and the asked goal becomes the
answer. -/
inductive Comes : ℕ → ResolutionState → Term → Prop
  | done {subst : Substitution Term} {answer : Term}
      (applies : Applies (narseseDialect collator) subst goal answer) : Comes 0 ⟨[], subst⟩ answer
  | resolve {steps : ℕ} {state next : ResolutionState} {answer : Term} (clause : Clause)
      (member : clause ∈ clauses) (resolves : ResolvesTo premises state clause next)
      (later : Comes steps next answer) : Comes (steps + 1) state answer

/-- With fewer clauses than there is depth left, the goal becomes the answer. -/
def Finds (remaining : ℕ) (state : ResolutionState) (answer : Term) : Prop :=
  ∃ steps < remaining, Comes premises goal clauses steps state answer

/-- A term has a value under some bindings: substituting comes to an end. -/
def HasValue (collator : Collator) (subst : Substitution Term) (term : Term) : Prop :=
  ∃ value, Applies (narseseDialect collator) subst term value

/-- Trying a clause comes to an end: the goal and the head have values, and so have the goals
after it. -/
def ClauseEnds (resolvedGoal : Term) (restGoals : List Term) (subst : Substitution Term)
    (clause : Clause) : Prop :=
  ∃ first second, Applies (narseseDialect collator) subst resolvedGoal first ∧
    Applies (narseseDialect collator) subst clause.head second ∧
    ∀ walk, solve (narseseDialect collator) premises.identical first second subst true =
        some walk →
      ∀ goal ∈ clause.body ++ restGoals, HasValue collator walk.work goal

/-- All that is substituted in a state comes to an end. -/
def StateEnds (state : ResolutionState) : Prop :=
  match state.goals with
  | [] => HasValue collator state.substitution goal
  | currentGoal :: restGoals =>
    ∃ resolvedGoal,
      Applies (narseseDialect collator) state.substitution currentGoal resolvedGoal ∧
        ∀ clause ∈ clauses, ClauseEnds premises resolvedGoal restGoals state.substitution clause

/-- So it does in every state that is reached with the depth that is left. -/
def SearchEnds : ℕ → ResolutionState → Prop
  | 0, _ => True
  | remaining + 1, state =>
    StateEnds premises goal clauses state ∧
      ∀ clause ∈ clauses, ∀ next, ResolvesTo premises state clause next →
        SearchEnds remaining next

end OwnNames

/-! ### What tasks tell -/

def Premises.Believes (premises : Premises collator) (term : Term) : Prop :=
  ∃ concept belief, premises.memory.getConcept term = some concept ∧
    concept.topBelief = some belief

/-- A task that is made for a believed term. -/
def Premises.IsTaskOf (premises : Premises collator) (term : Term) (task : Task) : Prop :=
  ∃ concept belief stamp, premises.memory.getConcept term = some concept ∧
    concept.topBelief = some belief ∧
    createSecondaryTask collator term concept.priority belief.truth stamp = .ok task

/-- Tasks are those of the believed terms that are found. -/
structure Tells (premises : Premises collator) (found : Term → Prop) (tasks : List Task) :
    Prop where
  sound : ∀ task ∈ tasks, ∃ term, found term ∧ premises.IsTaskOf term task
  complete : ∀ term, found term → premises.Believes term → ∃ task ∈ tasks,
    premises.IsTaskOf term task

section Tells

variable {premises : Premises collator}

theorem Tells.nil {found} (nothing : ∀ term, ¬ found term) : Tells premises found [] :=
  ⟨fun _ member => absurd member List.not_mem_nil, fun term here => absurd here (nothing term)⟩

theorem Tells.append {first second both tasks more}
    (either : ∀ term, both term ↔ first term ∨ second term) (tells : Tells premises first tasks)
    (tellsMore : Tells premises second more) : Tells premises both (tasks ++ more) := by
  constructor
  · intro task member
    rcases List.mem_append.mp member with member | member
    · obtain ⟨term, here, isTask⟩ := tells.sound task member
      exact ⟨term, (either term).mpr (.inl here), isTask⟩
    · obtain ⟨term, here, isTask⟩ := tellsMore.sound task member
      exact ⟨term, (either term).mpr (.inr here), isTask⟩
  · intro term here believed
    rcases (either term).mp here with here | here
    · obtain ⟨task, member, isTask⟩ := tells.complete term here believed
      exact ⟨task, List.mem_append_left _ member, isTask⟩
    · obtain ⟨task, member, isTask⟩ := tellsMore.complete term here believed
      exact ⟨task, List.mem_append_right _ member, isTask⟩

theorem Tells.congr {first second tasks} (same : ∀ term, first term ↔ second term)
    (tells : Tells premises first tasks) : Tells premises second tasks := by
  obtain rfl : first = second := funext fun term => propext (same term)
  exact tells

end Tells

/-! ### One step of the search -/

section Steps

variable {premises : Premises collator} {goal : Term} {clauses : List Clause}

theorem finds_zero (state : ResolutionState) (answer : Term) :
    ¬ Finds premises goal clauses 0 state answer :=
  fun ⟨_, fewer, _⟩ => absurd fewer (Nat.not_lt_zero _)

theorem finds_done_iff {remaining subst answer} :
    Finds premises goal clauses (remaining + 1) ⟨[], subst⟩ answer ↔
      Applies (narseseDialect collator) subst goal answer := by
  constructor
  · rintro ⟨steps, _, comes⟩
    cases comes with
    | done applies => exact applies
    | resolve clause member resolves later =>
      cases resolves with
      | resolve goals => cases goals
  · exact fun applies => ⟨0, Nat.succ_pos _, .done applies⟩

theorem finds_resolve_iff {remaining state} (some : state.goals ≠ []) {answer} :
    Finds premises goal clauses (remaining + 1) state answer ↔
      ∃ clause ∈ clauses, ∃ next, ResolvesTo premises state clause next ∧
        Finds premises goal clauses remaining next answer := by
  constructor
  · rintro ⟨steps, fewer, comes⟩
    cases comes with
    | done applies => exact absurd rfl some
    | resolve clause member resolves later =>
      exact ⟨clause, member, _, resolves, _, Nat.lt_of_succ_lt_succ fewer, later⟩
  · rintro ⟨clause, member, next, resolves, steps, fewer, later⟩
    exact ⟨steps + 1, Nat.succ_lt_succ fewer, .resolve clause member resolves later⟩

end Steps

/-! ### Substituting with a stack -/

section Stack

variable {premises : Premises collator} {stack : ℕ} {subst : Substitution Term}

variable {term value : Term}

theorem applySubstitution_eq_ok :
    applySubstitution collator stack term subst = .ok value ↔
      apply (narseseDialect collator) subst stack term = some (.ok value) := by
  unfold applySubstitution
  cases apply (narseseDialect collator) subst stack term with
  | none => exact iff_of_false (by rintro ⟨⟩) (by rintro ⟨⟩)
  | some answer =>
    cases answer with
    | error error => exact iff_of_false (by rintro ⟨⟩) (by rintro ⟨⟩)
    | ok found =>
      exact ⟨fun same => congrArg (some ∘ Except.ok) (Except.ok.inj same),
        fun same => congrArg Except.ok (Except.ok.inj (Option.some.inj same))⟩

theorem applies_of_ok (done : applySubstitution collator stack term subst = .ok value) :
    Applies (narseseDialect collator) subst term value :=
  applies_iff.mpr ⟨stack, applySubstitution_eq_ok.mp done⟩

theorem ok_of_applies (applies : Applies (narseseDialect collator) subst term value) :
    ∃ needed, ∀ stack, needed ≤ stack →
      applySubstitution collator stack term subst = .ok value := by
  obtain ⟨needed, done⟩ := applies
  exact ⟨needed, fun stack deep => applySubstitution_eq_ok.mpr (done stack deep)⟩

theorem forall₂_of_mapM_ok {goals values}
    (done : (goals.mapM fun goal => applySubstitution collator stack goal subst) = .ok values) :
    List.Forall₂ (Applies (narseseDialect collator) subst) goals values := by
  induction goals generalizing values with
  | nil =>
    cases done
    exact .nil
  | cons goal rest ih =>
    rw [List.mapM_cons, bind_eq_ok] at done
    obtain ⟨value, first, others⟩ := done
    obtain ⟨more, later, same⟩ := bind_eq_ok.mp others
    cases same
    exact .cons (applies_of_ok first) (ih later)

theorem mapM_ok_of_values {goals : List Term}
    (each : ∀ goal ∈ goals, HasValue collator subst goal) :
    ∃ values needed, ∀ stack, needed ≤ stack →
      (goals.mapM fun goal => applySubstitution collator stack goal subst) = .ok values := by
  induction goals with
  | nil => exact ⟨[], 0, fun _ _ => rfl⟩
  | cons goal rest ih =>
    obtain ⟨value, applies⟩ := each goal List.mem_cons_self
    obtain ⟨needed, done⟩ := ok_of_applies applies
    obtain ⟨values, neededLater, later⟩ := ih fun other member =>
      each other (List.mem_cons_of_mem _ member)
    refine ⟨value :: values, max needed neededLater, fun stack deep => ?_⟩
    rw [List.mapM_cons, done stack (le_of_max_le_left deep)]
    exact bind_eq_ok.mpr ⟨value, rfl, bind_eq_ok.mpr
      ⟨values, later stack (le_of_max_le_right deep), rfl⟩⟩

theorem unifyTerms_eq_ok {t1 t2 result}
    (done : unifyTerms premises stack t1 t2 subst = .ok result) :
    ∃ first second, Applies (narseseDialect collator) subst t1 first ∧
      Applies (narseseDialect collator) subst t2 second ∧
      result = (solve (narseseDialect collator) premises.identical first second subst true).map
        Walk.work := by
  obtain ⟨first, firstDone, done⟩ := bind_eq_ok.mp done
  obtain ⟨second, secondDone, same⟩ := bind_eq_ok.mp done
  exact ⟨first, second, applies_of_ok firstDone, applies_of_ok secondDone,
    (Except.ok.inj same).symm⟩

theorem unifyTerms_ok_of_applies (premises : Premises collator) {t1 t2 first second}
    (firstApplies : Applies (narseseDialect collator) subst t1 first)
    (secondApplies : Applies (narseseDialect collator) subst t2 second) :
    ∃ needed, ∀ stack, needed ≤ stack → unifyTerms premises stack t1 t2 subst =
      .ok ((solve (narseseDialect collator) premises.identical first second subst true).map
        Walk.work) := by
  obtain ⟨needed, firstDone⟩ := ok_of_applies firstApplies
  obtain ⟨neededLater, secondDone⟩ := ok_of_applies secondApplies
  exact ⟨max needed neededLater, fun stack deep => bind_eq_ok.mpr
    ⟨first, firstDone stack (le_of_max_le_left deep), bind_eq_ok.mpr
      ⟨second, secondDone stack (le_of_max_le_right deep), rfl⟩⟩⟩

end Stack

/-! ### What a search that returns tells -/

section Returns

variable {premises : Premises collator} {goal : Term} {clauses : List Clause} {stack : ℕ}
  {state : ResolutionState} {currentGoal resolvedGoal first : Term} {restGoals : List Term}

theorem applies_rightUnique (subst : Substitution Term) :
    Relator.RightUnique (Applies (narseseDialect collator) subst) :=
  fun _ _ _ one other => one.unique other

theorem resolvesTo_iff (goals : state.goals = currentGoal :: restGoals)
    (resolved : Applies (narseseDialect collator) state.substitution currentGoal resolvedGoal)
    (goalApplies : Applies (narseseDialect collator) state.substitution resolvedGoal first)
    {clause second}
    (headApplies : Applies (narseseDialect collator) state.substitution clause.head second) {next} :
    ResolvesTo premises state clause next ↔
      ∃ walk, solve (narseseDialect collator) premises.identical first second
          state.substitution true = some walk ∧
        next.substitution = walk.work ∧
        List.Forall₂ (Applies (narseseDialect collator) walk.work) (clause.body ++ restGoals)
          next.goals := by
  constructor
  · rintro ⟨sameGoals, otherResolved, otherGoal, otherHead, unified, goalsApply⟩
    obtain ⟨rfl, rfl⟩ := List.cons.inj (goals.symm.trans sameGoals)
    obtain rfl := resolved.unique otherResolved
    obtain rfl := goalApplies.unique otherGoal
    obtain rfl := headApplies.unique otherHead
    exact ⟨_, unified, rfl, goalsApply⟩
  · rintro ⟨walk, unified, same, goalsApply⟩
    obtain ⟨nextGoals, nextSubst⟩ := next
    obtain rfl : nextSubst = walk.work := same
    exact .resolve goals resolved goalApplies headApplies unified goalsApply

/-- A search with room for its results told all that is to be found, and came to an end. -/
structure Searched (premises : Premises collator) (goal : Term) (clauses : List Clause)
    (remaining bound : ℕ) (state : ResolutionState) (results found : List Task) : Prop where
  ends : SearchEnds premises goal clauses remaining state
  tells : ∃ new, found = results ++ new ∧ new.length ≤ bound ∧
    Tells premises (Finds premises goal clauses remaining state) new

variable {results found : List Task}

theorem resolveClauses_tells {remaining bound maxResults resolve}
    (each : ∀ next results found, resolve next results = .ok found →
      results.length + bound < maxResults →
        Searched premises goal clauses remaining bound next results found)
    (goals : state.goals = currentGoal :: restGoals)
    (resolved : Applies (narseseDialect collator) state.substitution currentGoal resolvedGoal)
    {tried} (room : results.length + tried.length * bound < maxResults)
    (done : resolveClauses premises stack maxResults resolve resolvedGoal restGoals
      state.substitution tried results = .ok found) :
    (∀ clause ∈ tried, ClauseEnds premises resolvedGoal restGoals state.substitution clause ∧
      ∀ next, ResolvesTo premises state clause next →
        SearchEnds premises goal clauses remaining next) ∧
      ∃ new, found = results ++ new ∧ new.length ≤ tried.length * bound ∧
        Tells premises (fun term => ∃ clause ∈ tried, ∃ next,
          ResolvesTo premises state clause next ∧
            Finds premises goal clauses remaining next term) new := by
  induction tried generalizing results with
  | nil =>
    cases done
    refine ⟨fun _ member => absurd member List.not_mem_nil, [], (List.append_nil _).symm,
      Nat.zero_le _, Tells.nil ?_⟩
    rintro term ⟨_, member, _⟩
    cases member
  | cons clause rest ih =>
    rw [resolveClauses, bind_eq_ok] at done
    obtain ⟨result, unifies, done⟩ := done
    obtain ⟨first, second, goalApplies, headApplies, rfl⟩ := unifyTerms_eq_ok unifies
    have after (next : ResolutionState) : ResolvesTo premises state clause next ↔ _ :=
      resolvesTo_iff goals resolved goalApplies headApplies
    rw [List.length_cons, Nat.succ_mul] at room ⊢
    cases solved : solve (narseseDialect collator) premises.identical first second
        state.substitution true with
    | none =>
      have none : ∀ next, ¬ ResolvesTo premises state clause next := fun next resolves => by
        obtain ⟨_, unified, _⟩ := (after next).mp resolves
        cases solved.symm.trans unified
      rw [solved] at done
      obtain ⟨ends, new, rfl, fewer, tells⟩ := ih (by omega) done
      refine ⟨List.forall_mem_cons.mpr
        ⟨⟨⟨first, second, goalApplies, headApplies, fun walk unified => ?_⟩,
        fun next resolves => absurd resolves (none next)⟩, ends⟩, new, rfl, by omega,
        tells.congr fun term => ?_⟩
      · cases solved.symm.trans unified
      · simp [none]
    | some walk =>
      rw [solved] at done
      obtain ⟨newGoals, mapped, done⟩ := bind_eq_ok.mp done
      obtain ⟨foundHere, resolveDone, done⟩ := bind_eq_ok.mp done
      have goalsApply := forall₂_of_mapM_ok mapped
      have only : ∀ next, ResolvesTo premises state clause next ↔ next = ⟨newGoals, walk.work⟩ := by
        refine fun next => (after next).trans ⟨?_, ?_⟩
        · rintro ⟨other, unified, same, otherApply⟩
          cases solved.symm.trans unified
          obtain ⟨nextGoals, nextSubst⟩ := next
          obtain rfl : nextSubst = walk.work := same
          obtain rfl := List.right_unique_forall₂' (applies_rightUnique _) otherApply goalsApply
          rfl
        · rintro rfl
          exact ⟨walk, solved, rfl, goalsApply⟩
      obtain ⟨endsHere, newHere, rfl, fewerHere, tellsHere⟩ :=
        each _ results foundHere resolveDone (by omega)
      rw [if_neg (by rw [List.length_append]; omega)] at done
      obtain ⟨ends, new, rfl, fewer, tells⟩ := ih
        (by rw [List.length_append]; omega) done
      refine ⟨List.forall_mem_cons.mpr
        ⟨⟨⟨first, second, goalApplies, headApplies, fun other unified => ?_⟩,
        fun next resolves => (only next).mp resolves ▸ endsHere⟩, ends⟩, newHere ++ new,
        List.append_assoc _ _ _, by rw [List.length_append]; omega,
        tellsHere.append (fun term => ?_) tells⟩
      · cases solved.symm.trans unified
        intro goal member
        obtain ⟨value, -, applies⟩ := exists_right_of_forall₂ goalsApply member
        exact ⟨value, applies⟩
      · simp [only]

theorem pushAnswer_tells {subst : Substitution Term}
    (done : pushAnswer premises stack goal subst results = .ok found) :
    ∃ answer new, Applies (narseseDialect collator) subst goal answer ∧ found = results ++ new ∧
      new.length ≤ 1 ∧ Tells premises (· = answer) new := by
  obtain ⟨answer, applied, done⟩ := bind_eq_ok.mp done
  refine ⟨answer, ?_⟩
  have nothing : ¬ premises.Believes answer → Tells premises (· = answer) [] := fun unbelieved =>
    ⟨fun _ member => absurd member List.not_mem_nil,
      fun term same believed => absurd (same ▸ believed) unbelieved⟩
  cases known : premises.memory.getConcept answer with
  | none =>
    rw [known] at done
    cases done
    refine ⟨[], applies_of_ok applied, (List.append_nil _).symm, Nat.zero_le _, nothing ?_⟩
    rintro ⟨concept, _, resident, _⟩
    cases known.symm.trans resident
  | some concept =>
    simp only [known] at done
    cases top : concept.topBelief with
    | none =>
      simp only [top] at done
      cases done
      refine ⟨[], applies_of_ok applied, (List.append_nil _).symm, Nat.zero_le _, nothing ?_⟩
      rintro ⟨other, belief, resident, believed⟩
      cases known.symm.trans resident
      cases top.symm.trans believed
    | some belief =>
      simp only [top] at done
      split at done
      · cases done
      · rename_i task made
        cases done
        have isTask : premises.IsTaskOf answer task := ⟨concept, belief, _, known, top, made⟩
        refine ⟨[task], applies_of_ok applied, rfl, le_rfl, fun other member => ?_, ?_⟩
        · exact ⟨answer, rfl, List.mem_singleton.mp member ▸ isTask⟩
        · rintro term rfl _
          exact ⟨task, List.mem_singleton_self task, isTask⟩

theorem sldResolve_tells {maxResults remaining state}
    (room : results.length + (clauses.length + 1) ^ remaining < maxResults)
    (done : sldResolve premises stack goal clauses maxResults remaining state results = .ok found) :
    Searched premises goal clauses remaining ((clauses.length + 1) ^ remaining) state results
      found := by
  induction remaining generalizing state results found with
  | zero =>
    cases done
    exact ⟨trivial, [], (List.append_nil _).symm, Nat.zero_le _, Tells.nil (finds_zero state)⟩
  | succ remaining ih =>
    have one : 1 ≤ (clauses.length + 1) ^ remaining := Nat.one_le_pow _ _ (Nat.succ_pos _)
    rw [pow_succ, Nat.mul_succ, Nat.mul_comm] at room ⊢
    rw [sldResolve, if_neg (by omega)] at done
    obtain ⟨goals, subst⟩ := state
    cases goals with
    | nil =>
      obtain ⟨answer, new, applies, rfl, fewer, tells⟩ := pushAnswer_tells done
      refine ⟨⟨⟨answer, applies⟩, fun clause _ next resolves => ?_⟩, new, rfl,
        fewer.trans (by omega), tells.congr fun term => ?_⟩
      · cases resolves with
        | resolve goals => cases goals
      · exact Iff.trans ⟨fun same => same ▸ applies, fun other => other.unique applies⟩
          finds_done_iff.symm
    | cons currentGoal restGoals =>
      obtain ⟨resolvedGoal, resolvedDone, done⟩ := bind_eq_ok.mp done
      have resolved := applies_of_ok resolvedDone
      obtain ⟨each, new, rfl, fewer, tells⟩ := resolveClauses_tells
        (fun next results found done room => ih room done) rfl resolved
        (by omega) done
      refine ⟨⟨⟨resolvedGoal, resolved, fun clause member => (each clause member).1⟩,
        fun clause member => (each clause member).2⟩, new, rfl, by omega,
        tells.congr fun term => ?_⟩
      exact (finds_resolve_iff (List.cons_ne_nil _ _)).symm

end Returns

/-! ### A search that comes to an end returns -/

section Ends

variable {premises : Premises collator} {goal : Term} {clauses : List Clause}
  {state next : ResolutionState}

/-- All terms of a state are canonical. -/
structure GoodState (collator : Collator) (state : ResolutionState) : Prop where
  goals : ∀ goal ∈ state.goals, Canonical termKey collator goal
  values : GoodValues (Canonical termKey collator) state.substitution

/-- And those of clauses. -/
def GoodClauses (collator : Collator) (clauses : List Clause) : Prop :=
  ∀ clause ∈ clauses, ∀ term ∈ clause.head :: clause.body, Canonical termKey collator term

theorem Applies.canonical {subst term value}
    (values : GoodValues (Canonical termKey collator) subst)
    (canonical : Canonical termKey collator term)
    (applies : Applies (narseseDialect collator) subst term value) :
    Canonical termKey collator value :=
  applies.good (narseseDialect_lawful collator) values canonical

theorem ResolvesTo.good {clause : Clause}
    (canonical : ∀ term ∈ clause.head :: clause.body, Canonical termKey collator term)
    (good : GoodState collator state) (resolves : ResolvesTo premises state clause next) :
    GoodState collator next := by
  obtain ⟨goals, resolved, goalApplies, headApplies, unified, goalsApply⟩ := resolves
  obtain ⟨currentGood, restGood⟩ := List.forall_mem_cons.mp (goals ▸ good.goals)
  obtain ⟨headGood, bodyGood⟩ := List.forall_mem_cons.mp canonical
  have firstGood := Applies.canonical good.values
    (Applies.canonical good.values currentGood resolved) goalApplies
  have valuesGood : GoodValues (Canonical termKey collator) _ :=
    descend_good (narseseDialect_lawful collator) firstGood
      (Applies.canonical good.values headGood headApplies) good.values unified
  refine ⟨fun value member => ?_, valuesGood⟩
  obtain ⟨given, inside, applies⟩ := exists_left_of_forall₂ goalsApply member
  refine Applies.canonical valuesGood ?_ applies
  rcases List.mem_append.mp inside with inside | inside
  · exact bodyGood given inside
  · exact restGood given inside

theorem resolveClauses_ok {currentGoal resolvedGoal restGoals}
    (resolve : ℕ → ResolutionState → List Task → Except SearchError (List Task)) (maxResults : ℕ)
    (goals : state.goals = currentGoal :: restGoals)
    (resolved : Applies (narseseDialect collator) state.substitution currentGoal resolvedGoal)
    {tried} (each : ∀ clause ∈ tried,
      ClauseEnds premises resolvedGoal restGoals state.substitution clause ∧
        ∀ next, ResolvesTo premises state clause next → ∃ needed, ∀ stack, needed ≤ stack →
          ∀ results, ∃ found, resolve stack next results = .ok found) :
    ∃ needed, ∀ stack, needed ≤ stack → ∀ results, ∃ found,
      resolveClauses premises stack maxResults (resolve stack) resolvedGoal restGoals
        state.substitution tried results = .ok found := by
  induction tried with
  | nil => exact ⟨0, fun _ _ results => ⟨results, rfl⟩⟩
  | cons clause rest ih =>
    obtain ⟨⟨⟨first, second, goalApplies, headApplies, bodyEnds⟩, later⟩, others⟩ :=
      List.forall_mem_cons.mp each
    obtain ⟨neededRest, restOk⟩ := ih others
    obtain ⟨neededUnify, unifies⟩ :=
      unifyTerms_ok_of_applies premises goalApplies headApplies
    cases solved : solve (narseseDialect collator) premises.identical first second
        state.substitution true with
    | none =>
      rw [solved] at unifies
      refine ⟨max neededUnify neededRest, fun stack deep results => ?_⟩
      obtain ⟨found, done⟩ := restOk stack (le_of_max_le_right deep) results
      exact ⟨found, bind_eq_ok.mpr ⟨none, unifies stack (le_of_max_le_left deep), done⟩⟩
    | some walk =>
      rw [solved] at unifies
      obtain ⟨newGoals, neededGoals, goalsOk⟩ := mapM_ok_of_values (bodyEnds walk solved)
      obtain ⟨neededNext, nextOk⟩ := later ⟨newGoals, walk.work⟩
        (.resolve goals resolved goalApplies headApplies solved
          (forall₂_of_mapM_ok (goalsOk neededGoals le_rfl)))
      refine ⟨max (max neededUnify neededRest) (max neededGoals neededNext),
        fun stack deep results => ?_⟩
      simp only [max_le_iff] at deep
      obtain ⟨here, hereDone⟩ := nextOk stack deep.2.2 results
      obtain ⟨found, done⟩ := restOk stack deep.1.2 here
      refine ⟨if maxResults ≤ here.length then here else found, bind_eq_ok.mpr
        ⟨some walk.work, unifies stack deep.1.1, bind_eq_ok.mpr ⟨newGoals, goalsOk stack deep.2.1,
          bind_eq_ok.mpr ⟨here, hereDone, ?_⟩⟩⟩⟩
      split
      · rfl
      · exact done

theorem pushAnswer_ok {subst} (values : GoodValues (Canonical termKey collator) subst)
    (canonical : Canonical termKey collator goal) (ends : HasValue collator subst goal) :
    ∃ needed, ∀ stack, needed ≤ stack → ∀ results, ∃ found,
      pushAnswer premises stack goal subst results = .ok found := by
  obtain ⟨answer, applies⟩ := ends
  obtain ⟨needed, done⟩ := ok_of_applies applies
  refine ⟨needed, fun stack deep results => ?_⟩
  rw [pushAnswer, done stack deep]
  cases resident : premises.memory.getConcept answer with
  | none =>
    refine ⟨results, bind_eq_ok.mpr ⟨answer, rfl, ?_⟩⟩
    simp only [resident]
  | some concept =>
    cases top : concept.topBelief with
    | none =>
      refine ⟨results, bind_eq_ok.mpr ⟨answer, rfl, ?_⟩⟩
      simp only [resident, top]
    | some belief =>
      obtain ⟨task, made⟩ : ∃ task, createSecondaryTask collator answer concept.priority
          belief.truth (premises.createInput results.length) = .ok task :=
        canonicalTask_ok (Applies.canonical values canonical applies)
      refine ⟨results ++ [task], bind_eq_ok.mpr ⟨answer, rfl, ?_⟩⟩
      simp only [resident, top, made]

theorem sldResolve_ok {remaining} (maxResults : ℕ) (canonical : Canonical termKey collator goal)
    (goodClauses : GoodClauses collator clauses) (good : GoodState collator state)
    (ends : SearchEnds premises goal clauses remaining state) :
    ∃ needed, ∀ stack, needed ≤ stack → ∀ results, ∃ found,
      sldResolve premises stack goal clauses maxResults remaining state results = .ok found := by
  induction remaining generalizing state with
  | zero => exact ⟨0, fun _ _ results => ⟨results, rfl⟩⟩
  | succ remaining ih =>
    obtain ⟨stateEnds, later⟩ := ends
    obtain ⟨goals, subst⟩ := state
    have body : ∃ needed, ∀ stack, needed ≤ stack → ∀ results, ∃ found,
        (match goals with
          | [] => pushAnswer premises stack goal subst results
          | currentGoal :: restGoals => do
            let resolvedGoal ← applySubstitution collator stack currentGoal subst
            resolveClauses premises stack maxResults
              (sldResolve premises stack goal clauses maxResults remaining) resolvedGoal restGoals
              subst clauses results : Except SearchError (List Task)) = .ok found := by
      cases goals with
      | nil => exact pushAnswer_ok good.values canonical stateEnds
      | cons currentGoal restGoals =>
        obtain ⟨resolvedGoal, resolved, clauseEnds⟩ := stateEnds
        obtain ⟨neededGoal, goalOk⟩ := ok_of_applies resolved
        obtain ⟨needed, clausesOk⟩ := resolveClauses_ok
          (fun stack => sldResolve premises stack goal clauses maxResults remaining) maxResults rfl
          resolved fun clause member => ⟨clauseEnds clause member, fun next resolves =>
            ih (resolves.good (goodClauses clause member) good)
              (later clause member next resolves)⟩
        refine ⟨max neededGoal needed, fun stack deep results => ?_⟩
        obtain ⟨found, done⟩ := clausesOk stack (le_of_max_le_right deep) results
        exact ⟨found, bind_eq_ok.mpr ⟨resolvedGoal, goalOk stack (le_of_max_le_left deep), done⟩⟩
    obtain ⟨needed, bodyOk⟩ := body
    refine ⟨needed, fun stack deep results => ?_⟩
    obtain ⟨found, done⟩ := bodyOk stack deep results
    refine ⟨if maxResults ≤ results.length then results else found, ?_⟩
    rw [sldResolve]
    split
    · rfl
    · exact done

end Ends

end Senars.Prolog
