/-
This file is the Narsese unifier as a matcher: one of the two terms has no
variable, and nothing is bound before. Then every variable is bound to a part of
that term, no chain of bindings is longer than one, and the occurs check has
nothing to find. So the walk succeeds exactly on the instances of the other term,
the deepest of which the depth cap cuts off.

An instance is taken in place: each variable is replaced by its value and nothing
is put back into canonical order, as the walk pairs the arguments by position.
-/

import Senars.Unify.Narsese

namespace Senars.Unify

open Library Terms

/-! ### Instances -/

mutual

/-- A term with a value in the place of each variable that has one. -/
def instantiate (bindings : String → Option Term) : Term → Term
  | .atom symbol =>
    if isVariableSymbol symbol then (bindings symbol).getD (.atom symbol) else .atom symbol
  | .compound kind args => .compound kind (instantiateArgs bindings args)

def instantiateArgs (bindings : String → Option Term) : List Term → List Term
  | [] => []
  | arg :: rest => instantiate bindings arg :: instantiateArgs bindings rest

end

/-- What a term becomes under some substitution. -/
def Instance (question answer : Term) : Prop :=
  ∃ bindings, instantiate bindings question = answer

theorem instantiateArgs_eq (bindings : String → Option Term) (args : List Term) :
    instantiateArgs bindings args = args.map (instantiate bindings) := by
  induction args with
  | nil => rfl
  | cons arg rest ih => rw [instantiateArgs, ih, List.map_cons]

theorem instantiate_compound (bindings : String → Option Term) (kind : OperatorKey)
    (args : List Term) : instantiate bindings (.compound kind args) =
      .compound kind (args.map (instantiate bindings)) := by
  rw [instantiate, instantiateArgs_eq]

theorem instantiate_variable {bindings symbol value} (isVariable : isVariableSymbol symbol = true)
    (bound : bindings symbol = some value) : instantiate bindings (.atom symbol) = value := by
  rw [instantiate, if_pos isVariable, bound, Option.getD_some]

theorem instantiate_of_variableFree {term} (free : VariableFree term)
    (bindings : String → Option Term) : instantiate bindings term = term := by
  induction term with
  | atom symbol => simp [instantiate, variableFree_atom.mp free]
  | compound kind args ih =>
    have each := variableFree_compound.mp free
    rw [instantiate_compound]
    refine congrArg _ ?_
    conv_rhs => rw [← List.map_id args]
    exact List.map_congr_left fun arg member => ih arg member (each arg member)

theorem instantiate_extends {bindings more term}
    (extended : ∀ name value, bindings name = some value → more name = some value)
    (free : VariableFree (instantiate bindings term)) :
    instantiate more term = instantiate bindings term := by
  induction term with
  | atom symbol =>
    by_cases isVariable : isVariableSymbol symbol = true
    · cases bound : bindings symbol with
      | none =>
        have same : instantiate bindings (.atom symbol) = .atom symbol := by
          rw [instantiate, if_pos isVariable, bound, Option.getD_none]
        rw [same, variableFree_atom] at free
        exact absurd (isVariable.symm.trans free) (by simp)
      | some value =>
        rw [instantiate_variable isVariable bound,
          instantiate_variable isVariable (extended symbol value bound)]
    · rw [instantiate, if_neg isVariable, instantiate, if_neg isVariable]
  | compound kind args ih =>
    rw [instantiate_compound, instantiate_compound]
    rw [instantiate_compound] at free
    refine congrArg _ (List.map_congr_left fun arg member => ?_)
    exact ih arg member
      (variableFree_compound.mp free _ (List.mem_map_of_mem member))

section Matching

variable {collator : Collator} {identical : Term → Term → Bool} {occursCheck : Bool}

variable {term : Term}

theorem variableName_of_variableFree (free : VariableFree term) :
    (narseseDialect collator).variableName term = none := by
  cases term with
  | atom symbol => simp [narseseDialect, variableFree_atom.mp free]
  | compound kind args => rfl

theorem deref_of_variableFree (free : VariableFree term) (work : Substitution Term) :
    deref (narseseDialect collator) work maxDepth term = term := by
  rw [maxDepth, deref, variableName_of_variableFree free]

theorem occurs_of_variableFree (free : VariableFree term) (name : String)
    (work : Substitution Term) (remaining : Nat) :
    occurs (narseseDialect collator) name work remaining term = false := by
  induction remaining generalizing term with
  | zero => rfl
  | succ remaining ih =>
    rw [occurs, variableName_of_variableFree free]
    cases term with
    | atom symbol => rfl
    | compound kind args =>
      refine List.any_eq_false.mpr fun arg member => ?_
      rw [ih (variableFree_compound.mp free arg member)]
      exact Bool.false_ne_true

/-- What a term resolves to when no bound value has a variable: what its variable is bound to,
or itself. -/
inductive Resolves (work : Substitution Term) : Term → Term → Prop
  | plain (term : Term) (plain : ∀ name, .atom name = term → isVariableSymbol name = false) :
      Resolves work term term
  | unbound (name : String) (isVariable : isVariableSymbol name = true)
      (fresh : work.get name = none) : Resolves work (.atom name) (.atom name)
  | bound (name : String) (value : Term) (isVariable : isVariableSymbol name = true)
      (found : work.get name = some value) (free : VariableFree value) :
      Resolves work (.atom name) value

theorem resolves_deref {work} (values : GoodValues VariableFree work) (term : Term) :
    Resolves work term (deref (narseseDialect collator) work maxDepth term) := by
  cases term with
  | compound kind args => exact .plain _ fun _ same => absurd same (by simp)
  | atom symbol =>
    by_cases isVariable : isVariableSymbol symbol = true
    · have named : (narseseDialect collator).variableName (.atom symbol) = some symbol :=
        if_pos isVariable
      rw [maxDepth, deref, named]
      dsimp only
      cases found : work.get symbol with
      | none => exact .unbound symbol isVariable found
      | some value =>
        have free := values symbol value found
        dsimp only
        rw [deref, variableName_of_variableFree free]
        exact .bound symbol value isVariable found free
    · have free : VariableFree (.atom symbol) :=
        variableFree_atom.mpr (Bool.not_eq_true _ ▸ isVariable)
      rw [deref_of_variableFree free]
      exact .plain _ fun name same => Term.atom.inj same ▸ variableFree_atom.mp free

/-! ### What the walk finds is an instance -/

/-- After a walk no bound value has a variable, every binding is kept, and the first term has
become the second. -/
structure Matched (walk next : Walk Term) (left right : Term) : Prop where
  values : GoodValues VariableFree next.work
  extended : walk.work.Extends next.work
  equal : instantiate next.work.get left = right

theorem pairwise_matched {step}
    (each : ∀ left right walk next, VariableFree right → GoodValues VariableFree walk.work →
      step left right walk = some next → Matched walk next left right) {lefts rights walk next}
    (length : lefts.length = rights.length) (free : ∀ right ∈ rights, VariableFree right)
    (values : GoodValues VariableFree walk.work)
    (done : pairwise step lefts rights walk = some next) :
    GoodValues VariableFree next.work ∧ walk.work.Extends next.work ∧
      lefts.map (instantiate next.work.get) = rights := by
  induction lefts generalizing rights walk with
  | nil =>
    obtain rfl := List.length_eq_zero_iff.mp length.symm
    cases done
    exact ⟨values, .refl _, rfl⟩
  | cons left lefts ih =>
    cases rights with
    | nil => cases length
    | cons right rights =>
      obtain ⟨middle, first, rest⟩ := pairwise_cons_eq_some.mp done
      have head := each left right walk middle (free right List.mem_cons_self) values first
      obtain ⟨nextValues, extended, tail⟩ := ih (Nat.succ.inj length)
        (fun other member => free other (List.mem_cons_of_mem _ member)) head.values rest
      refine ⟨nextValues, head.extended.trans extended, ?_⟩
      have headFree : VariableFree (instantiate middle.work.get left) :=
        head.equal ▸ free right List.mem_cons_self
      rw [List.map_cons, tail, instantiate_extends extended headFree, head.equal]

theorem Resolves.fresh {work term name} (resolves : Resolves work term (.atom name))
    (isVariable : isVariableSymbol name = true) : work.get name = none := by
  cases resolves with
  | plain _ plain => exact absurd (isVariable.symm.trans (plain name rfl)) (by simp)
  | unbound _ _ fresh => exact fresh
  | bound _ _ _ _ free =>
    exact absurd (isVariable.symm.trans (variableFree_atom.mp free)) (by simp)

theorem Resolves.instantiate {work term resolved} (resolves : Resolves work term resolved)
    (more : String → Option Term)
    (extended : ∀ name value, work.get name = some value → more name = some value) :
    Unify.instantiate more term = Unify.instantiate more resolved := by
  cases resolves with
  | plain _ _ => rfl
  | unbound _ _ _ => rfl
  | bound name _ isVariable found free =>
    rw [instantiate_variable isVariable (extended name _ found), instantiate_of_variableFree free]

theorem eq_of_leaf {left right} (paired : Paired (narseseDialect collator) left right)
    (childless : (narseseDialect collator).children left = [])
    (equal : (narseseDialect collator).equal left right = true) : left = right := by
  have same : left.kind? = right.kind? := beq_iff_eq.mp paired.head
  have rightChildless : getArgs right = [] :=
    List.length_eq_zero_iff.mp (paired.length.symm.trans (congrArg List.length childless))
  cases left with
  | atom symbol =>
    cases right with
    | atom other => rw [beq_iff_eq.mp (equal : (symbol == other) = true)]
    | compound kind args => cases same
  | compound kind args =>
    cases right with
    | atom other => cases same
    | compound other others =>
      rw [Option.some.inj same, show args = [] from childless, show others = [] from rightChildless]

theorem descend_matched (sound : ∀ left right, identical left right = true → left = right)
    {remaining} (left right : Term) (walk next : Walk Term) (free : VariableFree right)
    (values : GoodValues VariableFree walk.work)
    (done : descend (narseseDialect collator) identical occursCheck remaining left right walk =
      some next) : Matched walk next left right := by
  induction remaining generalizing left right walk next with
  | zero => cases done
  | succ remaining ih =>
    have resolves : Resolves walk.work left
        (deref (narseseDialect collator) walk.work maxDepth left) := resolves_deref values left
    have steps := succeeds_of_descend done
    rw [deref_of_variableFree free] at steps
    have plain : (narseseDialect collator).variableName right = none :=
      variableName_of_variableFree free
    generalize deref (narseseDialect collator) walk.work maxDepth left = resolved at resolves steps
    have whole : walk.work.Extends next.work → GoodValues VariableFree next.work →
        instantiate next.work.get resolved = right → Matched walk next left right :=
      fun extended nextValues equal =>
        ⟨nextValues, extended, (resolves.instantiate _ extended).trans equal⟩
    cases steps with
    | identical same =>
      obtain rfl := sound resolved right same
      exact whole (.refl _) values (instantiate_of_variableFree free _)
    | sameName name first second => exact absurd (plain.symm.trans second) (by simp)
    | bind name value _ step bound =>
      cases step with
      | right _ _ named => exact absurd (plain.symm.trans named) (by simp)
      | left _ named _ =>
        obtain ⟨rfl, isVariable⟩ := variableName_atom named
        have fresh := resolves.fresh isVariable
        have work := work_of_bind bound
        refine whole (work ▸ OrderedMap.extends_set fresh right) ?_ ?_
        · intro other value found
          rw [work, OrderedMap.get_set] at found
          split at found
          · exact Option.some.inj found ▸ free
          · exact values other value found
        · exact instantiate_variable isVariable (by rw [work, OrderedMap.get_set_self])
    | leaf paired childless equal =>
      obtain rfl := eq_of_leaf paired childless equal
      exact whole (.refl _) values (instantiate_of_variableFree free _)
    | children _ _ paired nonempty pairsDone =>
      cases resolved with
      | atom symbol => exact absurd rfl nonempty
      | compound kind args =>
        cases right with
        | atom symbol => exact absurd (beq_iff_eq.mp paired.head) (by simp)
        | compound other rights =>
          obtain rfl : kind = other := Option.some.inj (beq_iff_eq.mp paired.head)
          obtain ⟨nextValues, extended, equal⟩ := pairwise_matched
            (fun left right walk next => ih left right walk next)
            paired.length (variableFree_compound.mp free) values pairsDone
          refine whole extended nextValues ?_
          rw [instantiate_compound]
          exact congrArg (Term.compound kind) equal

/-! ### Every instance is found -/

/-- The bindings so far are among those that make the instance, and without variables. -/
def Within (bindings : String → Option Term) (work : Substitution Term) : Prop :=
  ∀ name value, work.get name = some value → bindings name = some value ∧ VariableFree value

theorem Within.set {bindings work name} (within : Within bindings work)
    (isVariable : isVariableSymbol name = true)
    (free : VariableFree (instantiate bindings (.atom name))) :
    Within bindings (work.set name (instantiate bindings (.atom name))) := by
  intro other value found
  rw [OrderedMap.get_set] at found
  split at found
  · rename_i here
    rw [← Option.some.inj found, here]
    refine ⟨?_, free⟩
    cases bound : bindings name with
    | some value => rw [instantiate_variable isVariable bound]
    | none =>
      rw [instantiate, if_pos isVariable, bound, Option.getD_none, variableFree_atom] at free
      exact absurd (isVariable.symm.trans free) (by simp)
  · exact within other value found

theorem bind_succeeds (occursCheck : Bool) {value} (free : VariableFree value) (name : String)
    (walk : Walk Term) : ∃ next,
      bind (narseseDialect collator) name value occursCheck walk = some next ∧
        next.work = walk.work.set name value := by
  simp [bind, occurs_of_variableFree free]

theorem pairwise_succeeds {bindings step args walk}
    (each : ∀ arg ∈ args, ∀ walk, Within bindings walk.work →
      ∃ next, step arg (instantiate bindings arg) walk = some next ∧ Within bindings next.work)
    (within : Within bindings walk.work) :
    ∃ next, pairwise step args (args.map (instantiate bindings)) walk = some next ∧
      Within bindings next.work := by
  induction args generalizing walk with
  | nil => exact ⟨walk, pairwise_nil_left _ _, within⟩
  | cons arg rest ih =>
    obtain ⟨middle, first, middleWithin⟩ := each arg List.mem_cons_self walk within
    obtain ⟨next, others, nextWithin⟩ := ih
      (fun other member => each other (List.mem_cons_of_mem _ member)) middleWithin
    exact ⟨next, pairwise_cons_eq_some.mpr ⟨middle, first, others⟩, nextWithin⟩

theorem descend_succeeds (bindings : String → Option Term) {remaining} (term : Term)
    (walk : Walk Term) (free : VariableFree (instantiate bindings term))
    (shallow : termDepth (instantiate bindings term) < remaining)
    (within : Within bindings walk.work) :
    ∃ next, descend (narseseDialect collator) identical occursCheck remaining term
      (instantiate bindings term) walk = some next ∧ Within bindings next.work := by
  induction remaining generalizing term walk with
  | zero => exact absurd shallow (Nat.not_lt_zero _)
  | succ remaining ih =>
    have values : GoodValues VariableFree walk.work := fun name value found =>
      (within name value found).2
    have plain : (narseseDialect collator).variableName (instantiate bindings term) = none :=
      variableName_of_variableFree free
    have resolves : Resolves walk.work term
        (deref (narseseDialect collator) walk.work maxDepth term) := resolves_deref values term
    have sameInstance := resolves.instantiate bindings fun name value found =>
      (within name value found).1
    have right : deref (narseseDialect collator) walk.work maxDepth (instantiate bindings term) =
        instantiate bindings term := deref_of_variableFree free _
    rw [descend]
    simp only [right]
    generalize deref (narseseDialect collator) walk.work maxDepth term = resolved
      at resolves sameInstance ⊢
    rw [sameInstance] at free shallow plain ⊢
    by_cases same : identical resolved (instantiate bindings resolved) = true
    · exact ⟨walk, by rw [if_pos same], within⟩
    rw [if_neg same, plain]
    cases named : (narseseDialect collator).variableName resolved with
    | some name =>
      obtain ⟨rfl, isVariable⟩ := variableName_atom named
      obtain ⟨next, bound, work⟩ := bind_succeeds occursCheck free name walk
      refine ⟨next, by simpa using bound, work ▸ within.set isVariable free⟩
    | none =>
      cases resolved with
      | atom symbol =>
        have itself : instantiate bindings (.atom symbol) = .atom symbol := by
          rw [instantiate, if_neg fun isVariable => by
            simp [narseseDialect, isVariable] at named]
        rw [itself]
        exact ⟨walk, by simp [narseseDialect, sameTerm], within⟩
      | compound kind args =>
        rw [instantiate_compound] at free shallow ⊢
        by_cases childless : args = []
        · exact ⟨walk, by simp [narseseDialect, sameTerm, childless], within⟩
        · obtain ⟨next, done, nextWithin⟩ := pairwise_succeeds
            (fun arg member current currentWithin =>
              ih arg current
                (variableFree_compound.mp free _ (List.mem_map_of_mem member))
                (Nat.lt_of_lt_of_le (termDepth_lt (List.mem_map_of_mem member))
                  (Nat.le_of_lt_succ shallow)) currentWithin) within
          refine ⟨next, ?_, nextWithin⟩
          simp [narseseDialect, childless]
          exact done

/-! ### The unifier as a matcher -/

section Calls

variable {unifier : Unifier Term} {question term : Term}
  (answers : MemoAnswers (narseseDialect collator) unifier
    (termCall question term .empty true identical))

include answers

theorem instance_of_unify (sound : ∀ left right, identical left right = true → left = right)
    (free : VariableFree term) {result} (done : (unifier.unify (narseseDialect collator)
      (termCall question term .empty true identical)).1 = some result) :
    Instance question term := by
  obtain ⟨walk, solved, -⟩ := exists_walk answers done
  exact ⟨walk.work.get, (descend_matched sound question term _ walk free goodValues_empty
    solved).equal⟩

theorem unify_of_instance (free : VariableFree term) (shallow : termDepth term < maxDepth)
    (isInstance : Instance question term) :
    ∃ result, (unifier.unify (narseseDialect collator)
      (termCall question term .empty true identical)).1 = some result := by
  obtain ⟨bindings, rfl⟩ := isInstance
  have nothing : Within bindings (.empty : Substitution Term) := fun name value found =>
    absurd (OrderedMap.get_empty name ▸ found) (by simp)
  obtain ⟨walk, solved⟩ : ∃ walk,
      (termCall question (instantiate bindings question) .empty true identical).solve
        (narseseDialect collator) = some walk := by
    obtain ⟨walk, solved, -⟩ := descend_succeeds bindings question
      { work := .empty, added := [] } free shallow nothing
    exact ⟨walk, solved⟩
  have same := unify_sameAnswer answers
  rw [solved] at same
  cases answer : (unifier.unify (narseseDialect collator)
      (termCall question (instantiate bindings question) .empty true identical)).1 with
  | none => rw [answer] at same; cases same
  | some result => exact ⟨result, rfl⟩

end Calls

end Matching

end Senars.Unify
