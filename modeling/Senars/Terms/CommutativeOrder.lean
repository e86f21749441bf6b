/-
This file is about the order of the arguments of a commutative compound.

The constructor sorts them by a key that is an atom's symbol and a compound's
kind, so two different compounds of one kind tie, and the stable sort leaves
tied arguments in the order they came in. A permutation of the arguments
therefore gives the same compound exactly when no two different arguments tie.
The public builder normalises what the constructor built and
can only hide a difference, which it does not where no reducer applies.
-/

import Senars.Terms.NormalForm

namespace Senars.Terms

open Library

variable (collator : Collator)

/-! ### The raw constructor -/

/-- Whether no two different arguments tie in the canonical order. -/
def Untied (args : List Term) : Prop :=
  ∀ first ∈ args, ∀ second ∈ args,
    (canonicalOrder collator).tied first second = true → first = second

theorem folded_cons_cons (kind : OperatorKey) (first second : Term) (rest : List Term) :
    folded kind (first :: second :: rest) = none := by
  cases kind <;> rfl

theorem folded_perm {kind args permuted} (perm : permuted.Perm args) :
    folded kind permuted = folded kind args := by
  match args with
  | [] => rw [List.perm_nil.mp perm]
  | [arg] => rw [List.perm_singleton.mp perm]
  | first :: second :: rest =>
    rw [folded_cons_cons]
    match permuted, perm.length_eq with
    | _ :: _ :: _, _ => exact folded_cons_cons kind _ _ _

theorem compoundOf_perm_iff {kind} (commutative : commutativeOps kind = true) (args : List Term) :
    (∀ permuted, permuted.Perm args →
        compoundOf collator kind permuted = compoundOf collator kind args) ↔
      Untied collator args := by
  have arity : ∀ got, arityError kind got = none := by
    intro got
    cases kind <;> first | rfl | exact absurd commutative (by decide)
  cases folds : folded kind args with
  | some term =>
    refine ⟨fun _ => ?_, fun _ permuted perm => ?_⟩
    · -- A folding list has at most one argument.
      intro first firstMember second secondMember _
      match args, folds with
      | [arg], _ => rw [List.mem_singleton.mp firstMember, List.mem_singleton.mp secondMember]
      | left :: right :: rest, found =>
        exact absurd (found.symm.trans (folded_cons_cons kind left right rest)) (by simp)
    · rw [compoundOf_of_folded collator folds,
        compoundOf_of_folded collator ((folded_perm perm).trans folds)]
  | none =>
    have sorted : ∀ permuted, permuted.Perm args → compoundOf collator kind permuted =
        .ok (.compound kind ((canonicalOrder collator).toSorted permuted)) := by
      intro permuted perm
      rw [compoundOf_of_unfolded collator ((folded_perm perm).trans folds) (arity _),
        if_pos commutative, wrapOperationArgs_of_commutative commutative]
    have order := (canonicalOrder collator).toSorted_perm_iff args
    refine Iff.trans ?_ order
    refine forall_congr' fun permuted => forall_congr' fun perm => ?_
    rw [sorted permuted perm, sorted args (List.Perm.refl args), Except.ok.injEq,
      Term.compound.injEq, and_iff_right rfl]

/-! ### The public builder -/

section Builder

variable {Key : Type} [DecidableEq Key] {key : Term → Key} {collator}

/-- Arguments a compound of the kind needs no reducer for. -/
structure Irreducible (key : Term → Key) (collator : Collator) (kind : OperatorKey)
    (args : List Term) : Prop where
  canonical : ∀ arg ∈ args, Canonical key collator arg
  quiet : ∀ reducer ∈ termReducers key collator, reducer.applies (.compound kind args) = false

theorem Irreducible.perm {kind} (commutative : commutativeOps kind = true) {args permuted}
    (irreducible : Irreducible key collator kind args) (perm : permuted.Perm args) :
    Irreducible key collator kind permuted where
  canonical arg member := irreducible.canonical arg (perm.subset member)
  quiet reducer member := by
    by_cases nary : naryOps kind = true
    · exact applies_antitone nary perm.subperm member (irreducible.quiet reducer member)
    · -- The two commutative kinds that are not n-ary have no reducer.
      have other : kind = .similarity ∨ kind = .equivalence := by
        cases kind <;> first
          | exact Or.inl rfl | exact Or.inr rfl
          | exact absurd commutative (by decide) | exact absurd rfl nary
      simp only [termReducers, List.mem_cons, List.not_mem_nil, or_false] at member
      rcases other with rfl | rfl <;>
        rcases member with rfl | rfl | rfl | rfl | rfl | rfl | rfl | rfl | rfl | rfl | rfl <;> rfl

theorem Irreducible.createCompound_eq {kind} (commutative : commutativeOps kind = true) {args}
    (irreducible : Irreducible key collator kind args) :
    createCompound key collator kind args = compoundOf collator kind args := by
  rw [createCompound]
  cases built : compoundOf collator kind args with
  | error error => rfl
  | ok term =>
    refine Canonical.canonicalTerm_eq ?_
    rcases compoundOf_cases built with folds | ⟨plain, _, equal⟩
    · exact folded_canonical irreducible.canonical folds
    · rw [if_pos commutative, wrapOperationArgs_of_commutative commutative] at equal
      subst equal
      have sorted := irreducible.perm commutative ((canonicalOrder collator).toSorted_perm args)
      exact .compound kind _ sorted.canonical (compoundOf_idempotent plain built) sorted.quiet

end Builder

/-- A commutative compound is the same for every permutation of its arguments where no two
different arguments tie in the canonical order. Conversely, where no reducer applies to the
arguments, it is the same for every permutation only then. -/
theorem createCompound_perm {kind : OperatorKey}
    (commutative : commutativeOps kind = true) (args : List Term) :
    (Untied collator args → ∀ permuted : List Term, permuted.Perm args →
      createCompound termKey collator kind permuted =
        createCompound termKey collator kind args) ∧
    (Irreducible termKey collator kind args →
      ((∀ permuted : List Term, permuted.Perm args →
        createCompound termKey collator kind permuted =
          createCompound termKey collator kind args) ↔ Untied collator args)) := by
  have enough : Untied collator args → ∀ permuted : List Term, permuted.Perm args →
      createCompound termKey collator kind permuted =
        createCompound termKey collator kind args := by
    intro untied permuted perm
    rw [createCompound, createCompound,
      (compoundOf_perm_iff collator commutative args).mpr untied permuted perm]
  refine ⟨enough, fun irreducible => ⟨fun same => ?_, enough⟩⟩
  refine (compoundOf_perm_iff collator commutative args).mp fun permuted perm => ?_
  rw [← (irreducible.perm commutative perm).createCompound_eq commutative,
    ← irreducible.createCompound_eq commutative, same permuted perm]

/-- The conjunction of two atoms and a statement does not depend on their order. -/
theorem createCompound_perm_conjunction :
    createCompound termKey codePointCollator .conjunction
        [.atom "b", .compound .inheritance [.atom "a", .atom "c"], .atom "a"] =
      createCompound termKey codePointCollator .conjunction
        [.atom "a", .atom "b", .compound .inheritance [.atom "a", .atom "c"]] :=
  (createCompound_perm codePointCollator rfl _).1 (by unfold Untied; decide) _ (by decide)

/-- Two statements of one kind keep the order they are given in. -/
theorem conjunction_of_statements_keeps_order :
    ¬ ∀ (collator : Collator) (kind : OperatorKey), commutativeOps kind = true →
      ∀ args permuted : List Term, permuted.Perm args →
        (createCompound termKey collator kind permuted).map termKey =
          (createCompound termKey collator kind args).map termKey := by
  intro invariant
  exact absurd (invariant codePointCollator .conjunction rfl
    [.compound .inheritance [.atom "a", .atom "b"], .compound .inheritance [.atom "c", .atom "d"]]
    [.compound .inheritance [.atom "c", .atom "d"], .compound .inheritance [.atom "a", .atom "b"]]
    (by decide)) (by decide)

end Senars.Terms
