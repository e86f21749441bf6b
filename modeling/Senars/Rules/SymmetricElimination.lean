/-
This file is about the two rules that eliminate a symmetric connective, applied to
what the term factory builds.

The factory sorts the two sides, so which of them comes first is not the caller's
choice. Elimination of an equivalence always concludes the side that comes second,
also from that side itself, so of its two directions exactly one is right.
Disjunctive syllogism treats its sides alike. It needs the disjunction to keep its
two sides and each negation to stay one: a side that is a disjunction is spliced in,
two sides of one key are merged, and the negation of a negation or of a constant is
no negation.
-/

import Senars.Rules.Propositional
import Senars.Terms.CommutativeOrder

namespace Senars.Rules

open Library Terms

variable {collator : Collator}

/-! ### Eliminating an equivalence -/

/-- The rule applied to the equivalence the factory builds of two terms, and a premise. -/
def equivalenceElimOf (collator : Collator) (first second premise : Term) :
    Except TermError (Option Term) := do
  let eq ← createCompound termKey collator .equivalence [first, second]
  equivalenceElim (eq, premise)

/-- From either of two atoms, their equivalence concludes the other. -/
def EliminatesEquivalence (collator : Collator) (first second : String) : Prop :=
  equivalenceElimOf collator (.atom first) (.atom second) (.atom first) =
      .ok (some (.atom second)) ∧
    equivalenceElimOf collator (.atom first) (.atom second) (.atom second) =
      .ok (some (.atom first))

theorem createCompound_equivalence (collator : Collator) (first second : String) :
    createCompound termKey collator .equivalence [.atom first, .atom second] =
      .ok (.compound .equivalence
        (if collator.le first second then [.atom first, .atom second]
          else [.atom second, .atom first])) := by
  have plain : Irreducible termKey collator .equivalence [.atom first, .atom second] := by
    refine ⟨fun arg member => ?_, fun reducer member => ?_⟩
    · simp only [List.mem_cons, List.not_mem_nil, or_false] at member
      rcases member with rfl | rfl <;> exact .atom _
    · simp only [termReducers, List.mem_cons, List.not_mem_nil, or_false] at member
      rcases member with rfl | rfl | rfl | rfl | rfl | rfl | rfl | rfl | rfl | rfl | rfl <;> rfl
  have sorted : (canonicalOrder collator).toSorted [.atom first, .atom second] =
      if collator.le first second then [.atom first, .atom second]
        else [.atom second, .atom first] := by
    by_cases order : collator.le first second = true
    · rw [if_pos order]
      exact Comparison.Sorted.toSorted_eq (List.pairwise_pair.mpr order)
    · rw [if_neg order]
      refine ((canonicalOrder collator).toSorted_pair _ _).resolve_left fun kept => ?_
      have inOrder := (canonicalOrder collator).toSorted_sorted [.atom first, .atom second]
      rw [kept] at inOrder
      exact order (List.rel_of_pairwise_cons inOrder List.mem_cons_self)
  rw [plain.createCompound_eq rfl]
  rfl

theorem equivalenceElimOf_eq {first second premise} (side : premise = first ∨ premise = second) :
    equivalenceElimOf collator (.atom first) (.atom second) (.atom premise) =
      .ok (some (.atom (if collator.le first second then second else first))) := by
  rw [equivalenceElimOf, createCompound_equivalence]
  by_cases order : collator.le first second = true
  · rcases side with rfl | rfl <;>
      simp [bind, Except.bind, equivalenceElim, binaryOf, termsEqual, order]
  · rcases side with rfl | rfl <;>
      simp [bind, Except.bind, equivalenceElim, binaryOf, termsEqual, order]

/-! ### The negation of a term -/

variable {operand left right : Term}

theorem operand_of_canonical
    (canonical : Canonical termKey collator (.compound .negation [operand])) :
    operand.kind? ≠ some .negation ∧ operand ≠ trueAtom ∧ operand ≠ falseAtom := by
  have single := canonical.settled doubleNegation (by simp [termReducers])
  have notTrue := canonical.settled negateTrue (by simp [termReducers])
  have notFalse := canonical.settled negateFalse (by simp [termReducers])
  refine ⟨?_, ?_, ?_⟩
  · cases operand with
    | atom symbol => simp
    | compound kind args =>
      rintro same
      cases same
      cases single
  · rintro rfl
    cases notTrue
  · rintro rfl
    cases notFalse

theorem reduce_negation {next} (canonical : Canonical termKey collator operand) {reducer}
    (member : reducer ∈ termReducers termKey collator)
    (fires : reducer.applies (.compound .negation [operand]) = true)
    (reduced : reducer.reduce (.compound .negation [operand]) = .ok next) :
    Canonical termKey collator next ∧ next.kind? ≠ some .negation := by
  simp only [termReducers, List.mem_cons, List.not_mem_nil, or_false] at member
  rcases member with rfl | rfl | rfl | rfl | rfl | rfl | rfl | rfl | rfl | rfl | rfl
  case inr.inr.inr.inr.inl =>
    -- A double negation: what is left stood under a canonical negation.
    cases operand with
    | atom _ => cases fires
    | compound kind args =>
      cases kind
      case negation =>
        obtain ⟨inner, rfl⟩ := canonical.negation_args
        cases reduced
        exact ⟨canonical.args _ List.mem_cons_self, (operand_of_canonical canonical).1⟩
      all_goals cases fires
  case inr.inr.inr.inr.inr.inl | inr.inr.inr.inr.inr.inr.inl =>
    cases reduced
    exact ⟨.atom _, by decide⟩
  all_goals cases fires

theorem createCompound_negation {negTerm} (canonical : Canonical termKey collator operand)
    (built : createCompound termKey collator .negation [operand] = .ok negTerm) :
    negTerm = .compound .negation [operand] ∨ negTerm.kind? ≠ some .negation := by
  let Holds : Term → Prop := fun term =>
    term = .compound .negation [operand] ∨
      Canonical termKey collator term ∧ term.kind? ≠ some .negation
  have step : ∀ reducer ∈ termReducers termKey collator, ∀ term next, Holds term →
      reducer.applies term = true → reducer.reduce term = .ok next → Holds next := by
    rintro reducer member term next (rfl | ⟨settled, -⟩) fires reduced
    · exact Or.inr (reduce_negation canonical member fires reduced)
    · rw [settled.settled reducer member] at fires
      cases fires
  have only : ∀ arg ∈ [operand], Canonical termKey collator arg :=
    fun arg member => List.mem_singleton.mp member ▸ canonical
  refine (createCompound_preserves Holds only (fun current raw => ?_) step built).imp id And.right
  exact Or.inl (Except.ok.inj raw).symm

theorem createCompound_negation_iff (canonical : Canonical termKey collator operand) :
    createCompound termKey collator .negation [operand] = .ok (.compound .negation [operand]) ↔
      operand.kind? ≠ some .negation ∧ operand ≠ trueAtom ∧ operand ≠ falseAtom := by
  constructor
  · exact fun built => operand_of_canonical (createCompound_canonical built)
  · rintro ⟨notNegation, notTrue, notFalse⟩
    refine Canonical.createCompound_eq (.compound .negation [operand] ?_ rfl ?_)
    · exact fun arg member => List.mem_singleton.mp member ▸ canonical
    · intro reducer member
      simp only [termReducers, List.mem_cons, List.not_mem_nil, or_false] at member
      rcases member with rfl | rfl | rfl | rfl | rfl | rfl | rfl | rfl | rfl | rfl | rfl
      case inr.inr.inr.inr.inl =>
        cases operand with
        | atom _ => rfl
        | compound kind _ => cases kind <;> first | rfl | exact absurd rfl notNegation
      case inr.inr.inr.inr.inr.inl =>
        exact beq_eq_false_iff_ne.mpr notTrue
      case inr.inr.inr.inr.inr.inr.inl =>
        exact beq_eq_false_iff_ne.mpr notFalse
      all_goals rfl

/-! ### The disjunction of two terms -/

/-- A term that stays one side of its disjunctions and whose negation stays a negation. -/
structure StandsAlone (term : Term) : Prop where
  notDisjunction : term.kind? ≠ some .disjunction
  notNegation : term.kind? ≠ some .negation
  notTrue : term ≠ trueAtom
  notFalse : term ≠ falseAtom

theorem StandsAlone.isAtomOf {term} (alone : StandsAlone term) (symbol : BoolSymbol) :
    symbol.isAtomOf term = false := by
  rw [BoolSymbol.isAtomOf, Bool.and_eq_false_iff, beq_eq_false_iff_ne]
  cases symbol with
  | TRUE => exact Or.inr alone.notTrue
  | FALSE => exact Or.inr alone.notFalse

theorem StandsAlone.irreducible (alone : StandsAlone left) (other : StandsAlone right)
    (canonicalLeft : Canonical termKey collator left)
    (canonicalRight : Canonical termKey collator right) (apart : termKey left ≠ termKey right) :
    Irreducible termKey collator .disjunction [left, right] := by
  have absent : ∀ symbol : BoolSymbol,
      [left, right].any symbol.isAtomOf = false := by
    intro symbol
    simp only [List.any_cons, List.any_nil, Bool.or_false, alone.isAtomOf, other.isAtomOf]
  refine ⟨fun arg member => ?_, fun reducer member => ?_⟩
  · simp only [List.mem_cons, List.not_mem_nil, or_false] at member
    rcases member with rfl | rfl
    · exact canonicalLeft
    · exact canonicalRight
  simp only [termReducers, List.mem_cons, List.not_mem_nil, or_false] at member
  rcases member with rfl | rfl | rfl | rfl | rfl | rfl | rfl | rfl | rfl | rfl | rfl
  case inl => simp [flattenNested, alone.notDisjunction, other.notDisjunction]
  case inr.inl => simp [dedupeArgs, hasRepeatedArgs, apart]
  case inr.inr.inr.inl =>
    have noPair : hasNegatedPair termKey (.compound .disjunction [left, right]) = false := by
      rw [hasNegatedPair, List.any_eq_false, getArgs_compound]
      intro arg member
      simp only [List.mem_cons, List.not_mem_nil, or_false] at member
      split
      · rcases member with rfl | rfl
        · exact absurd rfl alone.notNegation
        · exact absurd rfl other.notNegation
      · exact Bool.false_ne_true
    exact noPair
  case inr.inr.inr.inr.inr.inr.inr.inr.inr.inl =>
    exact absent .TRUE
  case inr.inr.inr.inr.inr.inr.inr.inr.inr.inr =>
    exact absent .FALSE
  all_goals rfl

/-! ### Disjunctive syllogism -/

/-- The rule applied to the disjunction the factory builds of two terms and the negation it
builds of a third. -/
def disjunctiveSyllogismOf (collator : Collator) (left right denied : Term) :
    Except TermError (Option Term) := do
  let disj ← createCompound termKey collator .disjunction [left, right]
  let negTerm ← createCompound termKey collator .negation [denied]
  disjunctiveSyllogism (disj, negTerm)

/-- From the negation of either of two terms, their disjunction concludes the other. -/
def EliminatesDisjunction (collator : Collator) (left right : Term) : Prop :=
  disjunctiveSyllogismOf collator left right left = .ok (some right) ∧
    disjunctiveSyllogismOf collator left right right = .ok (some left)

theorem disjunctiveSyllogism_eq_some {disj negTerm conclusion}
    (concluded : disjunctiveSyllogism (disj, negTerm) = .ok (some conclusion)) :
    ∃ left right denied, disj = .compound .disjunction [left, right] ∧
      negTerm.kind? = some .negation ∧ unaryOf .negation negTerm = some denied ∧
      (left = denied ∧ right = conclusion ∨ right = denied ∧ left = conclusion) := by
  unfold disjunctiveSyllogism at concluded
  split at concluded
  · rename_i left right premise same
    obtain ⟨rfl, rfl⟩ := Prod.mk.inj same
    split at concluded
    · cases concluded
    · rename_i denied found
      refine ⟨left, right, denied, rfl, ?_, found, ?_⟩
      · unfold unaryOf at found
        split at found
        · assumption
        · cases found
      · split at concluded
        · rename_i same
          exact Or.inl ⟨of_decide_eq_true same, Option.some.inj (Except.ok.inj concluded)⟩
        · split at concluded
          · rename_i same
            exact Or.inr ⟨of_decide_eq_true same, Option.some.inj (Except.ok.inj concluded)⟩
          · cases concluded
  · cases concluded

theorem kept_of_concluded {denied conclusion} (canonical : Canonical termKey collator denied)
    (concluded : disjunctiveSyllogismOf collator left right denied = .ok (some conclusion)) :
    (createCompound termKey collator .disjunction [left, right] =
        .ok (.compound .disjunction [denied, conclusion]) ∨
      createCompound termKey collator .disjunction [left, right] =
        .ok (.compound .disjunction [conclusion, denied])) ∧
    createCompound termKey collator .negation [denied] =
      .ok (.compound .negation [denied]) := by
  obtain ⟨disj, built, rest⟩ := bind_eq_ok.mp concluded
  obtain ⟨negTerm, negated, fired⟩ := bind_eq_ok.mp rest
  obtain ⟨first, second, operand, rfl, kind, found, sides⟩ := disjunctiveSyllogism_eq_some fired
  rcases createCompound_negation canonical negated with rfl | other
  · cases found
    refine ⟨?_, negated⟩
    rcases sides with ⟨rfl, rfl⟩ | ⟨rfl, rfl⟩
    · exact Or.inl built
    · exact Or.inr built
  · exact absurd kind other

theorem termKey_ne_of_canonical
    (canonical : Canonical termKey collator (.compound .disjunction [left, right])) :
    termKey left ≠ termKey right := by
  intro same
  have quiet := canonical.settled (dedupeArgs termKey collator) (by simp [termReducers])
  simp only [dedupeArgs, hasRepeatedArgs, getArgs_compound, List.map_cons, List.map_nil,
    same] at quiet
  simp [deduped, naryOps, commutativeOps, operators] at quiet

theorem eliminatesDisjunction_iff (canonicalLeft : Canonical termKey collator left)
    (canonicalRight : Canonical termKey collator right) (different : left ≠ right) :
    EliminatesDisjunction collator left right ↔
      StandsAlone left ∧ StandsAlone right ∧ termKey left ≠ termKey right := by
  constructor
  · rintro ⟨fromLeft, fromRight⟩
    obtain ⟨built, negatedLeft⟩ := kept_of_concluded canonicalLeft fromLeft
    obtain ⟨-, negatedRight⟩ := kept_of_concluded canonicalRight fromRight
    have plainLeft := (createCompound_negation_iff canonicalLeft).mp negatedLeft
    have plainRight := (createCompound_negation_iff canonicalRight).mp negatedRight
    have sides : (left.kind? ≠ some .disjunction ∧ right.kind? ≠ some .disjunction) ∧
        termKey left ≠ termKey right := by
      rcases built with built | built
      · have canonical := createCompound_canonical built
        exact ⟨⟨canonical.flat rfl left (by simp), canonical.flat rfl right (by simp)⟩,
          termKey_ne_of_canonical canonical⟩
      · have canonical := createCompound_canonical built
        exact ⟨⟨canonical.flat rfl left (by simp), canonical.flat rfl right (by simp)⟩,
          (termKey_ne_of_canonical canonical).symm⟩
    exact ⟨⟨sides.1.1, plainLeft.1, plainLeft.2.1, plainLeft.2.2⟩,
      ⟨sides.1.2, plainRight.1, plainRight.2.1, plainRight.2.2⟩, sides.2⟩
  · rintro ⟨alone, other, apart⟩
    have plain := alone.irreducible other canonicalLeft canonicalRight apart
    have negatedLeft := (createCompound_negation_iff canonicalLeft).mpr
      ⟨alone.notNegation, alone.notTrue, alone.notFalse⟩
    have negatedRight := (createCompound_negation_iff canonicalRight).mpr
      ⟨other.notNegation, other.notTrue, other.notFalse⟩
    have built : createCompound termKey collator .disjunction [left, right] =
        .ok (.compound .disjunction ((canonicalOrder collator).toSorted [left, right])) := by
      rw [plain.createCompound_eq rfl]
      rfl
    unfold EliminatesDisjunction disjunctiveSyllogismOf
    rw [built, negatedLeft, negatedRight]
    rcases (canonicalOrder collator).toSorted_pair left right with sorted | sorted <;> rw [sorted]
    · simp [bind, Except.bind, disjunctiveSyllogism, unaryOf, termsEqual, different]
    · simp [bind, Except.bind, disjunctiveSyllogism, unaryOf, termsEqual, different.symm]

/-! ### Both connectives -/

/-- The equivalence of two different atoms is eliminated from one side only, the one that sorts
first, so no equivalence is eliminated from both. The disjunction of two different canonical
terms is eliminated from both sides exactly when each stands alone and their keys differ. -/
theorem symmetric_elimination_iff (collator : Collator) :
    (∀ first second : String, first ≠ second →
      (equivalenceElimOf collator (.atom first) (.atom second) (.atom first) =
          .ok (some (.atom second)) ↔ collator.le first second = true) ∧
      (equivalenceElimOf collator (.atom first) (.atom second) (.atom second) =
          .ok (some (.atom first)) ↔ collator.le first second = false) ∧
      ¬ EliminatesEquivalence collator first second) ∧
    ∀ left right : Term, Canonical termKey collator left → Canonical termKey collator right →
      left ≠ right →
        (EliminatesDisjunction collator left right ↔
          StandsAlone left ∧ StandsAlone right ∧ termKey left ≠ termKey right) := by
  refine ⟨fun first second different => ?_, fun left right canonicalLeft canonicalRight =>
    eliminatesDisjunction_iff canonicalLeft canonicalRight⟩
  unfold EliminatesEquivalence
  rw [equivalenceElimOf_eq (Or.inl rfl), equivalenceElimOf_eq (Or.inr rfl)]
  by_cases order : collator.le first second = true
  · simp [order, different.symm]
  · simp [order, different]

/-- Of the equivalence of `a` and `b` only `a` concludes the other; their disjunction is
eliminated from both sides. -/
theorem symmetric_elimination_iff_ab :
    equivalenceElimOf codePointCollator (.atom "a") (.atom "b") (.atom "a") =
        .ok (some (.atom "b")) ∧
      EliminatesDisjunction codePointCollator (.atom "a") (.atom "b") := by
  have alone : ∀ symbol : String, Term.atom symbol ≠ trueAtom → Term.atom symbol ≠ falseAtom →
      StandsAlone (.atom symbol) :=
    fun symbol notTrue notFalse => ⟨by simp, by simp, notTrue, notFalse⟩
  exact ⟨((symmetric_elimination_iff codePointCollator).1 "a" "b" (by decide)).1.mpr (by decide),
    ((symmetric_elimination_iff codePointCollator).2 _ _ (.atom "a") (.atom "b")
      (by decide)).mpr ⟨alone "a" (by decide) (by decide), alone "b" (by decide) (by decide),
        by decide⟩⟩

/-- The equivalence of `a` and `b` concludes `b` from `b`. -/
theorem equivalence_concludes_premise :
    ¬ ∀ collator : Collator,
      (∀ first second : String, first ≠ second → EliminatesEquivalence collator first second) ∧
      ∀ left right : Term, Canonical termKey collator left → Canonical termKey collator right →
        left ≠ right → EliminatesDisjunction collator left right := by
  intro claim
  have eliminated := ((claim codePointCollator).1 "a" "b" (by decide)).2
  rw [equivalenceElimOf_eq (Or.inr rfl)] at eliminated
  exact absurd eliminated (by decide)

end Senars.Rules
