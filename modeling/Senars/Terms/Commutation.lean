/-
This file is what a compound of canonical arguments becomes in whatever order
the reducers are offered.

The reducers of an n-ary kind all work towards one term, which the arguments
tell beforehand: splice the nested arguments of the kind, and if a constant or a
negated pair decides the kind, take the constant; otherwise drop the neutral
constant and the repeats, and build. Each reducer that fires keeps that term,
with two exceptions. A negated pair is lost when its positive half is spliced,
so that it decides the kind before the splice and not after. And a conjunction
that is left with no argument is not `TRUE` but the empty conjunction, where one
that is left with `TRUE` is `TRUE`. Arguments free of both are clear.
-/

import Senars.Terms.BooleanMeaning
import Senars.Terms.CommutativeOrder

namespace Senars.Terms

open Library

/-! ### What the arguments of an n-ary kind come to -/

/-- The constant a kind drops from its arguments, for the kinds that have one. The other
constant replaces the whole. -/
def neutral : OperatorKey → Option BoolSymbol
  | .conjunction => some .TRUE
  | .disjunction => some .FALSE
  | _ => none

/-- The constant that a compound is, whatever its other arguments: an absorbing constant or a
negated pair among them decides it. -/
def decided (kind : OperatorKey) (args : List Term) : Option Term :=
  match neutral kind with
  | none => none
  | some symbol =>
    if args.any symbol.other.isAtomOf || hasNegatedPair id (.compound kind args) then
      some (.atom symbol.other.text)
    else none

/-- The arguments a kind keeps: not its neutral constant, and no repeat where it drops them. -/
def survivors (kind : OperatorKey) (args : List Term) : List Term :=
  let rest := args.filter fun arg => !(neutral kind).any fun symbol => symbol.isAtomOf arg
  if deduped kind then distinct id rest else rest

/-- What a kind makes of spliced arguments. -/
def outcome (collator : Collator) (kind : OperatorKey) (args : List Term) :
    Except TermError Term :=
  match decided kind args with
  | some constant => .ok constant
  | none => compoundOf collator kind (survivors kind args)

/-- Arguments every order of the reducers makes one term of. -/
structure Clear (kind : OperatorKey) (args : List Term) : Prop where
  /-- What decides the kind still decides it when nested arguments are spliced. -/
  pair : (decided kind args).isSome = true → (decided kind (spliced kind args)).isSome = true
  /-- A conjunction with `TRUE` has an argument that is neither `TRUE` nor empty. -/
  rest : kind = .conjunction → trueAtom ∈ args → 2 ≤ args.length →
    ∃ arg ∈ args, arg ≠ trueAtom ∧ arg ≠ .compound .conjunction []

/-! ### Looking among the arguments -/

variable {kind : OperatorKey} {args first second : List Term} {symbol : BoolSymbol}

theorem isAtomOf_iff {term : Term} : symbol.isAtomOf term = true ↔ term = .atom symbol.text := by
  rw [BoolSymbol.isAtomOf, Bool.and_eq_true, beq_iff_eq]
  constructor
  · exact And.right
  · rintro rfl
    cases symbol <;> exact ⟨rfl, rfl⟩

theorem hasNegatedPair_iff :
    hasNegatedPair id (.compound kind args) = true ↔
      ∃ operand rest, .compound .negation (operand :: rest) ∈ args ∧ operand ∈ args := by
  rw [hasNegatedPair, List.any_eq_true, List.map_id]
  constructor
  · rintro ⟨arg, member, found⟩
    split at found
    · exact ⟨_, _, member, List.contains_iff_mem.mp found⟩
    · cases found
  · rintro ⟨operand, rest, member, inside⟩
    exact ⟨_, member, List.contains_iff_mem.mpr inside⟩

theorem decided_isSome_iff :
    (decided kind args).isSome = true ↔
      ∃ symbol, neutral kind = some symbol ∧
        (.atom symbol.other.text ∈ args ∨ hasNegatedPair id (.compound kind args) = true) := by
  unfold decided
  cases neutral kind with
  | none => simp
  | some symbol =>
    have absorbing : args.any symbol.other.isAtomOf = true ↔ .atom symbol.other.text ∈ args := by
      simp only [List.any_eq_true, isAtomOf_iff, exists_eq_right]
    simp only [Option.some.injEq, exists_eq_left', ← absorbing, ← Bool.or_eq_true]
    split
    · rename_i found
      simp [found]
    · rename_i none
      simp [none]

theorem decided_eq (boolean : neutral kind = some symbol)
    (some : (decided kind args).isSome = true) :
    decided kind args = .some (.atom symbol.other.text) := by
  unfold decided at some ⊢
  rw [boolean] at some ⊢
  simp only at some ⊢
  split at some
  · rename_i found
    rw [if_pos found]
  · cases some

theorem decided_congr_of_isSome (boolean : neutral kind = some symbol)
    (same : (decided kind first).isSome = true ↔ (decided kind second).isSome = true) :
    decided kind first = decided kind second := by
  by_cases found : (decided kind first).isSome = true
  · rw [decided_eq boolean found, decided_eq boolean (same.mp found)]
  · rw [Option.not_isSome_iff_eq_none.mp found,
      Option.not_isSome_iff_eq_none.mp fun other => found (same.mpr other)]

theorem decided_congr (same : ∀ arg, arg ∈ first ↔ arg ∈ second) :
    decided kind first = decided kind second := by
  have pair : hasNegatedPair id (.compound kind first) =
      hasNegatedPair id (.compound kind second) := by
    rw [Bool.eq_iff_iff, hasNegatedPair_iff, hasNegatedPair_iff]
    simp only [same]
  have constant : ∀ symbol : BoolSymbol,
      first.any symbol.isAtomOf = second.any symbol.isAtomOf := by
    intro symbol
    rw [Bool.eq_iff_iff, List.any_eq_true, List.any_eq_true]
    simp only [same]
  unfold decided
  simp only [pair, constant]

theorem mem_spliced {arg} :
    arg ∈ spliced kind args ↔
      arg ∈ args ∧ arg.kind? ≠ some kind ∨
        ∃ inner, .compound kind inner ∈ args ∧ arg ∈ inner := by
  rw [spliced, List.mem_flatMap]
  constructor
  · rintro ⟨outer, member, inside⟩
    split at inside
    · rename_i same
      cases outer with
      | atom symbol => cases same
      | compound outerKind inner =>
        obtain rfl : outerKind = kind := Option.some.inj same
        exact Or.inr ⟨inner, member, inside⟩
    · rename_i different
      rw [List.mem_singleton] at inside
      subst inside
      exact Or.inl ⟨member, different⟩
  · rintro (⟨member, different⟩ | ⟨inner, member, inside⟩)
    · exact ⟨arg, member, by rw [if_neg different]; exact List.mem_singleton_self arg⟩
    · exact ⟨_, member, by rwa [if_pos (kind?_compound kind inner), getArgs_compound]⟩

theorem spliced_mem_congr (same : ∀ arg, arg ∈ first ↔ arg ∈ second) (arg : Term) :
    arg ∈ spliced kind first ↔ arg ∈ spliced kind second := by
  simp only [mem_spliced, same]

theorem spliced_eq_self (flat : ∀ arg ∈ args, arg.kind? ≠ some kind) :
    spliced kind args = args := by
  induction args with
  | nil => rfl
  | cons head tail ih =>
    rw [spliced, List.flatMap_cons, if_neg (flat head List.mem_cons_self)]
    exact congrArg (head :: ·)
      (ih fun arg member => flat arg (List.mem_cons_of_mem _ member))

theorem atom_mem_spliced {symbol} (member : .atom symbol ∈ args) :
    .atom symbol ∈ spliced kind args :=
  mem_spliced.mpr (Or.inl ⟨member, by simp⟩)

theorem Clear.congr {others} (clear : Clear kind args) (same : ∀ arg, arg ∈ args ↔ arg ∈ others)
    (long : 2 ≤ others.length → 2 ≤ args.length) :
    Clear kind others where
  pair := by
    rw [← decided_congr same, ← decided_congr (spliced_mem_congr same)]
    exact clear.pair
  rest isConjunction member enough := by
    obtain ⟨arg, inside, different⟩ :=
      clear.rest isConjunction ((same _).mpr member) (long enough)
    exact ⟨arg, (same arg).mp inside, different⟩

/-! ### The order of the arguments -/

section Order

variable (collator : Collator)

/-- The arguments in the order the constructor gives them. -/
def arranged (kind : OperatorKey) (args : List Term) : List Term :=
  if commutativeOps kind then (canonicalOrder collator).toSorted args else args

variable {collator}

theorem arranged_perm (kind : OperatorKey) (args : List Term) :
    (arranged collator kind args).Perm args := by
  unfold arranged
  split
  · exact (canonicalOrder collator).toSorted_perm args
  · exact List.Perm.refl args

variable {kind : OperatorKey} {args : List Term} {symbol : BoolSymbol}

theorem mem_arranged {arg} : arg ∈ arranged collator kind args ↔ arg ∈ args :=
  (arranged_perm kind args).mem_iff

theorem compoundOf_nary (nary : naryOps kind = true) (plain : folded kind args = none) :
    compoundOf collator kind args = .ok (.compound kind (arranged collator kind args)) := by
  have bare : wrapOperationArgs kind args = args := by
    cases kind <;> first | rfl | exact absurd nary (by decide)
  rw [compoundOf_of_unfolded collator plain (arityError_of_nary nary _), bare, arranged]

theorem compoundOf_arranged (nary : naryOps kind = true) (args : List Term) :
    compoundOf collator kind (arranged collator kind args) = compoundOf collator kind args := by
  have same : folded kind (arranged collator kind args) = folded kind args :=
    folded_perm (arranged_perm kind args)
  cases folds : folded kind args with
  | some term =>
    rw [compoundOf_of_folded collator folds, compoundOf_of_folded collator (same.trans folds)]
  | none =>
    rw [compoundOf_nary nary folds, compoundOf_nary nary (same.trans folds)]
    unfold arranged
    split
    · rw [(canonicalOrder collator).toSorted_toSorted]
    · rfl

theorem arranged_of_rebuilt (nary : naryOps kind = true)
    (rebuilt : compoundOf collator kind args = .ok (.compound kind args)) :
    folded kind args = none ∧ arranged collator kind args = args := by
  cases folds : folded kind args with
  | none =>
    rw [compoundOf_nary nary folds] at rebuilt
    exact ⟨rfl, (Term.compound.inj (Except.ok.inj rebuilt)).2⟩
  | some term =>
    -- A fold is one of the arguments or an atom, so it is not the compound of them.
    rw [compoundOf_of_folded collator folds, Except.ok.injEq] at rebuilt
    subst rebuilt
    unfold folded at folds
    split at folds <;> cases folds

theorem arranged_of_sublist {part} (order : arranged collator kind args = args)
    (below : part.Sublist args) : arranged collator kind part = part := by
  unfold arranged at order ⊢
  split
  · rename_i commutative
    rw [if_pos commutative] at order
    have sorted : (canonicalOrder collator).Sorted args :=
      order ▸ (canonicalOrder collator).toSorted_sorted args
    exact (sorted.sublist below).toSorted_eq
  · rfl

theorem survivors_arranged (kind : OperatorKey) (args : List Term) :
    survivors kind (arranged collator kind args) =
      arranged collator kind (survivors kind args) := by
  unfold arranged
  split
  · unfold survivors
    simp only [← (canonicalOrder collator).toSorted_filter]
    split
    · exact ((canonicalOrder collator).toSorted_uniqueBy _).symm
    · rfl
  · rfl

theorem outcome_arranged (nary : naryOps kind = true) (args : List Term) :
    outcome collator kind (arranged collator kind args) = outcome collator kind args := by
  rw [outcome, outcome, decided_congr (fun _ => mem_arranged), survivors_arranged,
    compoundOf_arranged nary]

/-! ### What the reducers leave as it is -/

theorem outcome_distinct (drops : deduped kind = true) (args : List Term) :
    outcome collator kind (spliced kind (distinct id args)) =
      outcome collator kind (spliced kind args) := by
  have same : ∀ arg, arg ∈ distinct id args ↔ arg ∈ args := fun _ => mem_uniqueBy_id
  have survive : survivors kind (spliced kind (distinct id args)) =
      survivors kind (spliced kind args) := by
    unfold survivors spliced
    rw [if_pos drops, if_pos drops, List.filter_flatMap, List.filter_flatMap]
    exact uniqueBy_flatMap_uniqueBy id _ args
  rw [outcome, outcome, decided_congr (spliced_mem_congr same), survive]

theorem flatMap_filter_eq {Value Other : Type} {keep} {expand : Value → List Other}
    (gone : ∀ value, keep value = false → expand value = []) (values : List Value) :
    (values.filter keep).flatMap expand = values.flatMap expand := by
  induction values with
  | nil => rfl
  | cons head rest ih =>
    rw [List.flatMap_cons]
    by_cases kept : keep head = true
    · rw [List.filter_cons_of_pos kept, List.flatMap_cons, ih]
    · rw [List.filter_cons_of_neg kept, ih,
        gone head (Bool.not_eq_true _ ▸ kept), List.nil_append]

theorem flattened_of_neutral (boolean : neutral kind = some symbol) : flattened kind = true := by
  cases kind <;> first | rfl | cases boolean

theorem not_canonical_negated_constant (symbol : BoolSymbol) (rest : List Term) :
    ¬ Canonical id collator (.compound .negation (.atom symbol.text :: rest)) := by
  intro canonical
  have quiet := canonical.settled (negateBool symbol)
    (by cases symbol <;> simp [termReducers, negateTrue, negateFalse])
  simp [negateBool] at quiet

theorem mem_spliced_filter {arg : Term} (different : arg ≠ .atom symbol.text) :
    arg ∈ spliced kind (args.filter fun arg => !symbol.isAtomOf arg) ↔
      arg ∈ spliced kind args := by
  have kept : ∀ other, (!symbol.isAtomOf other) = true ↔ other ≠ .atom symbol.text := by
    intro other
    rw [Bool.not_eq_true', ← Bool.not_eq_true, isAtomOf_iff]
  simp only [mem_spliced, List.mem_filter, kept, ne_eq, reduceCtorEq, not_false_eq_true,
    and_true, different]

theorem decided_filter (boolean : neutral kind = some symbol)
    (canonical : ∀ arg ∈ args, Canonical id collator arg) :
    decided kind (spliced kind (args.filter fun arg => !symbol.isAtomOf arg)) =
      decided kind (spliced kind args) := by
  have nary := flattened_of_neutral boolean
  refine decided_congr_of_isSome boolean ?_
  simp only [decided_isSome_iff, hasNegatedPair_iff]
  refine exists_congr fun constant => and_congr_right fun same => ?_
  cases boolean.symm.trans same
  refine or_congr ?_ (exists_congr fun operand => exists_congr fun rest => ?_)
  · exact mem_spliced_filter (by cases symbol <;> decide)
  · rw [mem_spliced_filter (by simp)]
    refine and_congr_right fun negation => mem_spliced_filter ?_
    rintro rfl
    exact not_canonical_negated_constant symbol rest
      (spliced_canonical nary canonical _ negation).1

theorem outcome_filter (boolean : neutral kind = some symbol)
    (canonical : ∀ arg ∈ args, Canonical id collator arg) :
    outcome collator kind (spliced kind (args.filter fun arg => !symbol.isAtomOf arg)) =
      outcome collator kind (spliced kind args) := by
  have left : (spliced kind (args.filter fun arg => !symbol.isAtomOf arg)).filter
      (fun arg => !symbol.isAtomOf arg) =
        (spliced kind args).filter fun arg => !symbol.isAtomOf arg := by
    unfold spliced
    rw [List.filter_flatMap, List.filter_flatMap]
    refine flatMap_filter_eq (fun arg dropped => ?_) args
    rw [Bool.not_eq_false', isAtomOf_iff] at dropped
    rw [dropped]
    simp [isAtomOf_iff]
  have survive : survivors kind (spliced kind (args.filter fun arg => !symbol.isAtomOf arg)) =
      survivors kind (spliced kind args) := by
    simp only [survivors, boolean, Option.any_some, left]
  rw [outcome, outcome, decided_filter boolean canonical, survive]

end Order

/-! ### Canonical terms are what their arguments come to -/

section Canonical

variable {collator : Collator} {kind : OperatorKey} {args : List Term}

theorem Canonical.not_constant {symbol} (boolean : neutral kind = some symbol)
    (canonical : Canonical id collator (.compound kind args)) (constant : BoolSymbol) :
    .atom constant.text ∉ args := by
  intro member
  have absent : ∀ (id' : String) (absorbing : Bool),
      boolAbsorb collator id' kind constant absorbing ∈ termReducers id collator → False := by
    intro name absorbing registered
    have quiet := canonical.settled _ registered
    simp only [boolAbsorb, kind?_compound, beq_self_eq_true, Bool.true_and, getArgs_compound,
      List.any_eq_false] at quiet
    exact quiet _ member (isAtomOf_iff.mpr rfl)
  cases kind <;> first | cases boolean; done | skip
  · cases constant with
    | TRUE => exact absent "conjunction-true" false (by simp [termReducers, conjunctionTrue])
    | FALSE => exact absent "conjunction-false" true (by simp [termReducers, conjunctionFalse])
  · cases constant with
    | TRUE => exact absent "disjunction-true" true (by simp [termReducers, disjunctionTrue])
    | FALSE => exact absent "disjunction-false" false (by simp [termReducers, disjunctionFalse])

section

variable (canonical : Canonical id collator (.compound kind args))

include canonical

theorem Canonical.undecided : decided kind args = none := by
  rw [← Option.not_isSome_iff_eq_none, decided_isSome_iff]
  rintro ⟨symbol, boolean, constant | pair⟩
  · exact canonical.not_constant boolean _ constant
  · cases kind <;> first | cases boolean; done | skip
    · have quiet := canonical.settled (conjunctionContradiction id) (by simp [termReducers])
      simp [conjunctionContradiction, pair] at quiet
    · have quiet := canonical.settled (disjunctionTautology id) (by simp [termReducers])
      simp [disjunctionTautology, pair] at quiet

theorem Canonical.survive : survivors kind args = args := by
  have whole : args.filter (fun arg => !(neutral kind).any fun symbol => symbol.isAtomOf arg) =
      args := by
    refine List.filter_eq_self.mpr fun arg member => ?_
    rw [Bool.not_eq_true', Option.any_eq_false]
    intro symbol boolean
    rw [← Bool.not_eq_true, isAtomOf_iff]
    rintro rfl
    exact canonical.not_constant boolean _ member
  unfold survivors
  simp only [whole]
  split
  · rename_i drops
    have quiet := canonical.settled (dedupeArgs id collator) (by simp [termReducers])
    simp only [dedupeArgs, drops, Bool.true_and, hasRepeatedArgs, Bool.not_eq_false',
      getArgs_compound] at quiet
    exact uniqueBy_eq_self (of_decide_eq_true quiet)
  · rfl

theorem Canonical.outcome_eq : outcome collator kind args = .ok (.compound kind args) := by
  rw [outcome, canonical.undecided, canonical.survive]
  exact canonical.rebuilt

end

theorem decided_singleton {symbol} (boolean : neutral kind = some symbol) {arg}
    (found : (decided kind [arg]).isSome = true) : arg = .atom symbol.other.text := by
  rw [decided_isSome_iff] at found
  obtain ⟨constant, same, member | pair⟩ := found
  · cases boolean.symm.trans same
    exact (List.mem_singleton.mp member).symm
  · obtain ⟨operand, rest, negation, member⟩ := hasNegatedPair_iff.mp pair
    rw [List.mem_singleton] at negation member
    have sizes := congrArg sizeOf (member.trans negation.symm)
    simp at sizes
    omega

theorem outcome_singleton {arg} (folds : folded kind [arg] = some arg)
    (different : kind = .conjunction → arg ≠ trueAtom) : outcome collator kind [arg] = .ok arg := by
  have built : compoundOf collator kind [arg] = .ok arg := compoundOf_of_folded collator folds
  have kept : ∀ rest : List Term, rest = [arg] →
      (if deduped kind then distinct id rest else rest) = [arg] := by
    rintro rest rfl
    split <;> rfl
  cases boolean : neutral kind with
  | none =>
    have undecided : decided kind [arg] = none := by rw [decided, boolean]
    have survive : survivors kind [arg] = [arg] := kept _ (by simp [boolean])
    rw [outcome, undecided, survive]
    exact built
  | some symbol =>
    by_cases found : (decided kind [arg]).isSome = true
    · rw [outcome, decided_eq boolean found, decided_singleton boolean found]
    · rw [outcome, Option.not_isSome_iff_eq_none.mp found]
      by_cases dropped : arg = .atom symbol.text
      · -- The neutral constant leaves nothing, which only a disjunction folds back to it.
        cases kind <;> first | cases boolean; done | skip
        · cases boolean
          exact absurd dropped (different rfl)
        · cases boolean
          rw [dropped]
          rfl
      · have survive : survivors kind [arg] = [arg] := by
          refine kept _ ?_
          simpa [boolean, ← Bool.not_eq_true, isAtomOf_iff] using dropped
        rw [survive]
        exact built

theorem outcome_of_folded (canonical : ∀ arg ∈ args, Canonical id collator arg) {term}
    (folds : folded kind args = some term) (different : kind = .conjunction → args ≠ [trueAtom]) :
    outcome collator kind (spliced kind args) = .ok term := by
  match args, folds with
  | [], folds =>
    cases kind <;> cases folds
    rfl
  | [arg], folds =>
    have same : term = arg := by
      cases kind <;> cases folds <;> rfl
    subst same
    by_cases nested : term.kind? = some kind
    · cases term with
      | atom symbol => cases nested
      | compound inner innerArgs =>
        obtain rfl : inner = kind := Option.some.inj nested
        have splice : spliced inner [.compound inner innerArgs] = innerArgs := by simp [spliced]
        rw [splice]
        exact (canonical _ List.mem_cons_self).outcome_eq
    · rw [spliced_eq_self (by simpa using nested)]
      exact outcome_singleton folds fun conjunction same => different conjunction (same ▸ rfl)
  | first :: second :: rest, folds =>
    rw [folded_cons_cons] at folds
    cases folds

end Canonical

/-! ### Clear arguments stay clear -/

section Clear

variable {collator : Collator} {kind : OperatorKey} {args : List Term}

theorem Clear.arranged (clear : Clear kind args) : Clear kind (arranged collator kind args) :=
  clear.congr (fun _ => mem_arranged.symm) fun long =>
    ((arranged_perm kind args).length_eq).symm ▸ long

theorem Clear.distinct (clear : Clear kind args) : Clear kind (distinct id args) :=
  clear.congr (fun _ => mem_uniqueBy_id.symm) fun long =>
    long.trans (uniqueByFrom_sublist id [] args).length_le

theorem Clear.filter {symbol} (boolean : neutral kind = some symbol)
    (canonical : ∀ arg ∈ args, Canonical id collator arg) (clear : Clear kind args) :
    Clear kind (args.filter fun arg => !symbol.isAtomOf arg) where
  pair found := by
    rw [decided_filter boolean canonical]
    refine clear.pair ?_
    rw [decided_isSome_iff] at found ⊢
    simp only [hasNegatedPair_iff, List.mem_filter] at found ⊢
    obtain ⟨constant, same, member | ⟨operand, rest, negation, positive⟩⟩ := found
    · exact ⟨constant, same, Or.inl member.1⟩
    · exact ⟨constant, same, Or.inr ⟨operand, rest, negation.1, positive.1⟩⟩
  rest isConjunction member _ := by
    subst isConjunction
    cases boolean
    have dropped := (List.mem_filter.mp member).2
    exact absurd dropped (by decide)

theorem spliced_rest (canonical : ∀ arg ∈ args, Canonical id collator arg)
    (found : ∃ arg ∈ args, arg ≠ trueAtom ∧ arg ≠ .compound .conjunction []) :
    ∃ arg ∈ spliced .conjunction args, arg ≠ trueAtom := by
  obtain ⟨arg, member, different, inhabited⟩ := found
  by_cases nested : arg.kind? = some .conjunction
  · match arg, nested with
    | .compound .conjunction [], _ => exact absurd rfl inhabited
    | .compound .conjunction (first :: others), _ =>
      refine ⟨first, mem_spliced.mpr (Or.inr ⟨_, member, List.mem_cons_self⟩), ?_⟩
      rintro rfl
      exact (canonical _ member).not_constant rfl .TRUE List.mem_cons_self
  · exact ⟨arg, mem_spliced.mpr (Or.inl ⟨member, nested⟩), different⟩

theorem mem_of_constant_mem_spliced (canonical : ∀ arg ∈ args, Canonical id collator arg) {symbol}
    (boolean : neutral kind = some symbol) (constant : BoolSymbol)
    (member : .atom constant.text ∈ spliced kind args) : .atom constant.text ∈ args := by
  rcases mem_spliced.mp member with ⟨inside, _⟩ | ⟨inner, nested, inside⟩
  · exact inside
  · exact absurd inside ((canonical _ nested).not_constant boolean constant)

theorem mem_survivors {arg} (member : arg ∈ args)
    (different : ∀ symbol : BoolSymbol, arg ≠ .atom symbol.text) : arg ∈ survivors kind args := by
  have kept : arg ∈ args.filter
      fun arg => !(neutral kind).any fun symbol => symbol.isAtomOf arg := by
    refine List.mem_filter.mpr ⟨member, ?_⟩
    rw [Bool.not_eq_true', Option.any_eq_false]
    intro symbol _
    rw [← Bool.not_eq_true, isAtomOf_iff]
    exact different symbol
  unfold survivors
  split
  · exact mem_uniqueBy_id.mpr kept
  · exact kept

theorem clear_of_flat (flat : ∀ arg ∈ args, arg.kind? ≠ some kind)
    (rest : kind = .conjunction → trueAtom ∈ args → 2 ≤ args.length →
      ∃ arg ∈ args, arg ≠ trueAtom) : Clear kind args where
  pair found := by rwa [spliced_eq_self flat]
  rest isConjunction member long := by
    obtain ⟨arg, inside, different⟩ := rest isConjunction member long
    refine ⟨arg, inside, different, ?_⟩
    rintro rfl
    exact flat _ inside (isConjunction ▸ rfl)

theorem Clear.spliced (nary : flattened kind = true)
    (canonical : ∀ arg ∈ args, Canonical id collator arg)
    (long : kind = .conjunction → trueAtom ∈ args → 2 ≤ args.length)
    (clear : Clear kind args) : Clear kind (spliced kind args) := by
  refine clear_of_flat (fun arg inside => (spliced_canonical nary canonical arg inside).2) ?_
  rintro rfl member _
  have given : trueAtom ∈ args :=
    mem_of_constant_mem_spliced canonical rfl .TRUE member
  exact spliced_rest canonical (clear.rest rfl given (long rfl given))

end Clear

end Senars.Terms
