/-
This file is about the weight of a term, in which an atom counts once and a compound
twice, besides its arguments. The builder never makes a term heavier than its
arguments and a compound over them: it folds, drops repeats, splices and replaces by
constants. Only an operation over a bare argument gets heavier, by the product that
wraps it.
-/

import Mathlib.Algebra.Order.BigOperators.Group.List
import Mathlib.Algebra.Order.Ring.Nat
import Senars.Terms.NormalForm

namespace Senars.Terms

open Library

/-- What a node of a term weighs by itself. -/
def nodeWeight : Term → ℕ
  | .atom _ => 1
  | .compound _ _ => 2

def termWeight (term : Term) : ℕ := ((visited term).map nodeWeight).sum

@[simp] theorem termWeight_atom (symbol : String) : termWeight (.atom symbol) = 1 := rfl

theorem termWeight_compound (kind : OperatorKey) (args : List Term) :
    termWeight (.compound kind args) = (args.map termWeight).sum + 2 := by
  rw [termWeight, visited, visitedArgs_eq, List.map_cons, List.sum_cons, List.map_flatMap,
    List.flatMap_def, List.sum_flatten, List.map_map, Nat.add_comm]
  rfl

theorem termWeight_pos (term : Term) : 1 ≤ termWeight term := by
  cases term with
  | atom symbol => exact le_rfl
  | compound kind args =>
    rw [termWeight_compound]
    omega

theorem getArgs_weight_le (term : Term) :
    ((getArgs term).map termWeight).sum ≤ termWeight term := by
  cases term with
  | atom symbol => exact Nat.zero_le _
  | compound kind args =>
    rw [termWeight_compound]
    exact Nat.le_add_right _ _

/-! ### Building adds no weight -/

theorem wrapOperationArgs_of_nary {kind} (nary : naryOps kind = true) (args : List Term) :
    wrapOperationArgs kind args = args := by
  unfold wrapOperationArgs
  split
  · exact absurd nary (by decide)
  · rfl

theorem compoundOf_weight_le {collator kind args term} (bare : wrapOperationArgs kind args = args)
    (built : compoundOf collator kind args = .ok term) :
    termWeight term ≤ (args.map termWeight).sum + 2 := by
  rcases compoundOf_cases built with folds | ⟨_, _, rfl⟩
  · match kind, args, folds with
    | .disjunction, [], folds => exact Option.some.inj folds ▸ Nat.le_succ 1
    | .disjunction, [arg], folds | .conjunction, [arg], folds | .parallel, [arg], folds =>
      obtain rfl : arg = term := Option.some.inj folds
      exact Nat.le_add_right _ _
  · rw [bare, termWeight_compound]
    split
    · rw [((Comparison.toSorted_perm _ args).map termWeight).sum_eq]
    · exact le_rfl

theorem spliced_weight_le (kind : OperatorKey) (args : List Term) :
    ((spliced kind args).map termWeight).sum ≤ (args.map termWeight).sum := by
  induction args with
  | nil => exact le_rfl
  | cons arg rest ih =>
    have first : ((if arg.kind? = some kind then getArgs arg else [arg]).map termWeight).sum ≤
        termWeight arg := by
      split
      · exact getArgs_weight_le arg
      · exact le_of_eq List.sum_singleton
    rw [spliced, List.flatMap_cons, List.map_append, List.sum_append, List.map_cons,
      List.sum_cons]
    exact add_le_add first ih

section Reducers

variable {Key : Type} [DecidableEq Key] {key : Term → Key} {collator : Collator}

theorem reduce_weight_le {reducer} (member : reducer ∈ termReducers key collator) {term next}
    (fires : reducer.applies term = true) (done : reducer.reduce term = .ok next) :
    termWeight next ≤ termWeight term := by
  have constant : ∀ symbol : BoolSymbol, atomOf symbol.text = .ok next →
      termWeight next ≤ termWeight term := by
    intro symbol built
    rw [atomOf_eq built]
    exact termWeight_pos term
  have lighter : ∀ {kind inner : OperatorKey} {args others : List Term}, naryOps inner = true →
      term = .compound kind args → (others.map termWeight).sum ≤ (args.map termWeight).sum →
      compoundOf collator inner others = .ok next → termWeight next ≤ termWeight term := by
    rintro kind inner args others nary rfl less built
    rw [termWeight_compound]
    exact (compoundOf_weight_le (wrapOperationArgs_of_nary nary others) built).trans
      (Nat.add_le_add_right less 2)
  have absorb : ∀ (id : String) (absorbed : OperatorKey) (symbol : BoolSymbol)
      (absorbing : Bool), naryOps absorbed = true →
      reducer = boolAbsorb collator id absorbed symbol absorbing →
      termWeight next ≤ termWeight term := by
    rintro id absorbed symbol absorbing nary rfl
    cases absorbing with
    | true => exact constant symbol done
    | false =>
      cases term with
      | atom _ => cases fires
      | compound kind args =>
        exact lighter nary rfl ((List.filter_sublist.map termWeight).sum_le_sum
          fun _ _ => Nat.zero_le _) done
  simp only [termReducers, List.mem_cons, List.not_mem_nil, or_false] at member
  rcases member with rfl | rfl | rfl | rfl | rfl | rfl | rfl | same | same | same | same
  · cases term with
    | atom symbol => cases done
    | compound kind args =>
      have nary : naryOps kind = true := (Bool.and_eq_true _ _ ▸ fires).1
      exact lighter nary rfl (spliced_weight_le kind args) done
  · cases term with
    | atom symbol => cases done
    | compound kind args =>
      have nary : naryOps kind = true := by
        simp only [dedupeArgs, deduped, Bool.and_eq_true] at fires
        exact fires.1.1
      exact lighter nary rfl (((uniqueByFrom_sublist key [] args).map termWeight).sum_le_sum
        fun _ _ => Nat.zero_le _) done
  · exact constant .FALSE done
  · exact constant .TRUE done
  · simp only [doubleNegation] at done
    split at done
    · rw [← Except.ok.inj done, termWeight_compound, List.map_cons, List.sum_cons,
        termWeight_compound, List.map_cons, List.sum_cons]
      omega
    · cases done
  · exact constant .FALSE done
  · exact constant .TRUE done
  · exact absorb _ _ _ _ rfl same
  · exact absorb _ _ _ _ rfl same
  · exact absorb _ _ _ _ rfl same
  · exact absorb _ _ _ _ rfl same

theorem createCompound_weight_le {kind args term}
    (canonical : ∀ arg ∈ args, Canonical key collator arg)
    (bare : wrapOperationArgs kind args = args)
    (built : createCompound key collator kind args = .ok term) :
    termWeight term ≤ (args.map termWeight).sum + 2 :=
  createCompound_preserves (fun next => termWeight next ≤ (args.map termWeight).sum + 2) canonical
    (fun _ raw => compoundOf_weight_le bare raw)
    (fun _ member _ _ less fires done => (reduce_weight_le member fires done).trans less) built

end Reducers

end Senars.Terms
