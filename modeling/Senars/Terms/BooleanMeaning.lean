/-
This file proves that normalising a term keeps its Boolean meaning. Conjunction,
disjunction and negation are read as the Boolean connectives and the two
constants as themselves; every other node is opaque, and a valuation gives its
value.

Each reducer is one Boolean law, so each is one short lemma. They are lifted
through the pass, the loop and the recursion by the same three inductions that
define those. A node of another kind is opaque in the term and may stop being
opaque in the canonical form, because a parallel that drops its repeats down to
one argument is that argument: such a node has the value of its canonical form.
-/

import Senars.Terms.NormalForm

namespace Senars.Terms

open Library

/-! ### The meaning of a term -/

/-- The value of a node from the values of its arguments, and from the value it has when it
is opaque. -/
def connected : OperatorKey → List Bool → Bool → Bool
  | .conjunction, values, _ => values.all id
  | .disjunction, values, _ => values.any id
  | .negation, [value], _ => !value
  | _, _, leaf => leaf

mutual

/-- The Boolean value of a term, where `leaf` gives the value of an opaque node. -/
def meaning (leaf : Term → Bool) : Term → Bool
  | .atom symbol =>
    if symbol = "TRUE" then true
    else if symbol = "FALSE" then false
    else leaf (.atom symbol)
  | .compound kind args => connected kind (meanings leaf args) (leaf (.compound kind args))

def meanings (leaf : Term → Bool) : List Term → List Bool
  | [] => []
  | arg :: rest => meaning leaf arg :: meanings leaf rest

end

theorem meanings_eq (leaf : Term → Bool) (args : List Term) :
    meanings leaf args = args.map (meaning leaf) := by
  induction args with
  | nil => rfl
  | cons arg rest ih =>
    rw [meanings, ih, List.map_cons]

/-- The kinds that are read as Boolean connectives. -/
def connective : OperatorKey → Bool
  | .conjunction | .disjunction | .negation => true
  | _ => false

section Meaning

variable (leaf : Term → Bool)

@[simp] theorem meaning_trueAtom : meaning leaf trueAtom = true := rfl

@[simp] theorem meaning_falseAtom : meaning leaf falseAtom = false := rfl

theorem meaning_conjunction (args : List Term) :
    meaning leaf (.compound .conjunction args) = args.all (meaning leaf) := by
  rw [meaning, meanings_eq, connected, List.all_map]
  rfl

theorem meaning_disjunction (args : List Term) :
    meaning leaf (.compound .disjunction args) = args.any (meaning leaf) := by
  rw [meaning, meanings_eq, connected, List.any_map]
  rfl

theorem meaning_negation (operand : Term) :
    meaning leaf (.compound .negation [operand]) = !meaning leaf operand := rfl

theorem meaning_boolSymbol (symbol : BoolSymbol) :
    meaning leaf (.atom symbol.text) = decide (symbol = .TRUE) := by
  cases symbol <;> rfl

theorem meaning_leaf {kind} (other : connective kind = false) (args : List Term) :
    meaning leaf (.compound kind args) = leaf (.compound kind args) := by
  cases kind <;> first | rfl | exact absurd other (by decide)

theorem meaning_of_mem_iff {kind} (boolean : connective kind = true) (nary : naryOps kind = true)
    {first second} (same : ∀ arg, arg ∈ first ↔ arg ∈ second) :
    meaning leaf (.compound kind first) = meaning leaf (.compound kind second) := by
  cases kind <;> first | exact absurd boolean (by decide) | exact absurd nary (by decide) | skip
  · rw [meaning_conjunction, meaning_conjunction, Bool.eq_iff_iff, List.all_eq_true,
      List.all_eq_true]
    exact forall_congr' fun arg => by rw [same arg]
  · rw [meaning_disjunction, meaning_disjunction, Bool.eq_iff_iff, List.any_eq_true,
      List.any_eq_true]
    exact exists_congr fun arg => by rw [same arg]

end Meaning

/-! ### The raw constructor keeps the value -/

section Preservation

variable {collator : Collator} (leaf : Term → Bool)

variable {kind : OperatorKey} {args : List Term} {term next : Term}

theorem folded_meaning (boolean : connective kind = true) (folds : folded kind args = some term) :
    meaning leaf term = meaning leaf (.compound kind args) := by
  unfold folded at folds
  split at folds
  · rw [← Option.some.inj folds]
    rfl
  · rw [← Option.some.inj folds, meaning_disjunction, List.any_cons, List.any_nil, Bool.or_false]
  · rw [← Option.some.inj folds, meaning_conjunction, List.all_cons, List.all_nil, Bool.and_true]
  · exact absurd boolean (by decide)
  · cases folds

theorem compoundOf_meaning (boolean : connective kind = true)
    (built : compoundOf collator kind args = .ok term) :
    meaning leaf term = meaning leaf (.compound kind args) := by
  rcases compoundOf_cases built with folds | ⟨-, -, equal⟩
  · exact folded_meaning leaf boolean folds
  subst equal
  have unwrapped : wrapOperationArgs kind args = args := by
    cases kind <;> first | rfl | exact absurd boolean (by decide)
  rw [unwrapped]
  by_cases commutative : commutativeOps kind = true
  · have nary : naryOps kind = true := by
      cases kind <;>
        first | rfl | exact absurd boolean (by decide) | exact absurd commutative (by decide)
    rw [if_pos commutative]
    exact meaning_of_mem_iff leaf boolean nary fun arg => Comparison.mem_toSorted
  · rw [if_neg commutative]

/-! ### Every reducer keeps the value -/

theorem spliced_meaning (boolean : connective kind = true) (nary : flattened kind = true)
    (args : List Term) :
    meaning leaf (.compound kind (spliced kind args)) = meaning leaf (.compound kind args) := by
  cases kind <;> first | exact absurd boolean (by decide) | exact absurd nary (by decide) | skip
  · rw [meaning_conjunction, meaning_conjunction, spliced, List.all_flatMap]
    refine congrArg args.all (funext fun arg => ?_)
    cases arg with
    | atom symbol => exact Bool.and_true _
    | compound kind inner =>
      split
      · rename_i same
        rw [Option.some.inj same, getArgs_compound, meaning_conjunction]
      · exact Bool.and_true _
  · rw [meaning_disjunction, meaning_disjunction, spliced, List.any_flatMap]
    refine congrArg args.any (funext fun arg => ?_)
    cases arg with
    | atom symbol => exact Bool.or_false _
    | compound kind inner =>
      split
      · rename_i same
        rw [Option.some.inj same, getArgs_compound, meaning_disjunction]
      · exact Bool.or_false _

theorem distinct_meaning (boolean : connective kind = true) (nary : naryOps kind = true)
    (args : List Term) :
    meaning leaf (.compound kind (distinct id args)) = meaning leaf (.compound kind args) := by
  refine meaning_of_mem_iff leaf boolean nary fun arg => ⟨mem_of_mem_uniqueBy, fun member => ?_⟩
  obtain ⟨kept, keptMember, same⟩ := uniqueBy_covers id member
  have same : kept = arg := same
  exact same ▸ keptMember

theorem negatedPair_of_hasNegatedPair (canonical : ∀ arg ∈ args, Canonical id collator arg)
    (pair : hasNegatedPair id (.compound kind args) = true) :
    ∃ operand ∈ args, .compound .negation [operand] ∈ args := by
  rw [hasNegatedPair, List.any_eq_true] at pair
  obtain ⟨arg, member, found⟩ := pair
  split at found
  · rename_i operand rest
    obtain ⟨only, same⟩ := (canonical _ member).negation_args
    obtain ⟨rfl, rfl⟩ := List.cons.inj same
    rw [List.map_id, List.contains_iff_mem] at found
    exact ⟨operand, found, member⟩
  · cases found

theorem boolAbsorb_meaning {id symbol absorbing}
    (law : kind = .conjunction ∧ decide (symbol = .FALSE) = absorbing ∨
      kind = .disjunction ∧ decide (symbol = .TRUE) = absorbing)
    (fires : args.any symbol.isAtomOf = true) (done :
      (boolAbsorb collator id kind symbol absorbing).reduce (.compound kind args) = .ok next) :
    meaning leaf next = meaning leaf (.compound kind args) := by
  have constant : ∀ arg, symbol.isAtomOf arg = true → arg = .atom symbol.text := fun arg found =>
    beq_iff_eq.mp (Bool.and_eq_true_iff.mp found).2
  rw [List.any_eq_true] at fires
  obtain ⟨found, member, isConstant⟩ := fires
  obtain rfl := constant found isConstant
  simp only [boolAbsorb, getArgs_compound] at done
  cases absorbing with
  | true =>
    obtain rfl := atomOf_eq done
    rcases law with ⟨rfl, same⟩ | ⟨rfl, same⟩
    · obtain rfl := of_decide_eq_true same
      rw [meaning_conjunction, eq_comm]
      exact List.all_eq_false.mpr ⟨_, member, by simp [meaning_boolSymbol]⟩
    · obtain rfl := of_decide_eq_true same
      rw [meaning_disjunction, eq_comm]
      exact List.any_eq_true.mpr ⟨_, member, rfl⟩
  | false =>
    rcases law with ⟨rfl, different⟩ | ⟨rfl, different⟩
    · have neutral : symbol = .TRUE := by cases symbol <;> first | rfl | cases different
      rw [compoundOf_meaning leaf rfl done, meaning_conjunction, meaning_conjunction,
        List.all_filter]
      refine congrArg args.all (funext fun arg => ?_)
      by_cases dropped : symbol.isAtomOf arg = true
      · rw [constant arg dropped, neutral]
        rfl
      · simp [dropped]
    · have neutral : symbol = .FALSE := by
        cases symbol <;> first | rfl | cases different
      rw [compoundOf_meaning leaf rfl done, meaning_disjunction, meaning_disjunction,
        List.any_filter]
      refine congrArg args.any (funext fun arg => ?_)
      by_cases dropped : symbol.isAtomOf arg = true
      · rw [constant arg dropped, neutral]
        rfl
      · simp [dropped]

theorem negateBool_meaning (symbol : BoolSymbol)
    (rebuilt : compoundOf collator kind args = .ok (.compound kind args))
    (fires : (negateBool symbol).applies (.compound kind args) = true)
    (done : (negateBool symbol).reduce (.compound kind args) = .ok next) :
    meaning leaf next = meaning leaf (.compound kind args) := by
  simp only [negateBool] at fires done
  split at fires
  · rename_i arg rest equal
    obtain ⟨rfl, rfl⟩ := Term.compound.inj equal
    obtain ⟨only, same⟩ := negation_args_of_rebuilt rebuilt
    obtain ⟨rfl, rfl⟩ := List.cons.inj same
    rw [beq_iff_eq.mp fires, atomOf_eq done, meaning_negation, meaning_boolSymbol,
      meaning_boolSymbol]
    cases symbol <;> rfl
  · cases fires

theorem reduce_meaning (boolean : connective kind = true)
    (canonical : ∀ arg ∈ args, Canonical id collator arg)
    (rebuilt : compoundOf collator kind args = .ok (.compound kind args)) {reducer}
    (member : reducer ∈ termReducers id collator)
    (fires : reducer.applies (.compound kind args) = true)
    (done : reducer.reduce (.compound kind args) = .ok next) :
    meaning leaf next = meaning leaf (.compound kind args) := by
  simp only [termReducers, List.mem_cons, List.not_mem_nil, or_false] at member
  rcases member with rfl | rfl | rfl | rfl | rfl | rfl | rfl | rfl | rfl | rfl | rfl
  · simp only [flattenNested, Bool.and_eq_true] at fires
    rw [compoundOf_meaning leaf boolean done, spliced_meaning leaf boolean fires.1]
  · simp only [dedupeArgs, deduped, Bool.and_eq_true] at fires
    rw [compoundOf_meaning leaf boolean done, distinct_meaning leaf boolean fires.1.1]
  · simp only [conjunctionContradiction, kind?_compound, Bool.and_eq_true, beq_iff_eq,
      Option.some.injEq] at fires
    obtain ⟨rfl, pair⟩ := fires
    obtain ⟨operand, inside, negated⟩ := negatedPair_of_hasNegatedPair canonical pair
    have built : atomOf "FALSE" = .ok next := done
    rw [atomOf_eq built, meaning_conjunction, eq_comm]
    refine List.all_eq_false.mpr ?_
    by_cases value : meaning leaf operand = true
    · exact ⟨_, negated, by simp [meaning_negation, value]⟩
    · exact ⟨_, inside, value⟩
  · simp only [disjunctionTautology, kind?_compound, Bool.and_eq_true, beq_iff_eq,
      Option.some.injEq] at fires
    obtain ⟨rfl, pair⟩ := fires
    obtain ⟨operand, inside, negated⟩ := negatedPair_of_hasNegatedPair canonical pair
    have built : atomOf "TRUE" = .ok next := done
    rw [atomOf_eq built, meaning_disjunction, eq_comm]
    refine List.any_eq_true.mpr ?_
    by_cases value : meaning leaf operand = true
    · exact ⟨_, inside, value⟩
    · exact ⟨_, negated, by simp [meaning_negation, value]⟩
  · simp only [doubleNegation] at fires
    split at fires
    · rename_i inner rest equal
      obtain ⟨rfl, rfl⟩ := Term.compound.inj equal
      obtain ⟨only, same⟩ := negation_args_of_rebuilt rebuilt
      obtain ⟨rfl, rfl⟩ := List.cons.inj same
      obtain ⟨operand, rfl⟩ := (canonical _ List.mem_cons_self).negation_args
      rw [← Except.ok.inj done, meaning_negation, meaning_negation, Bool.not_not]
    · cases fires
  · exact negateBool_meaning leaf .TRUE rebuilt fires done
  · exact negateBool_meaning leaf .FALSE rebuilt fires done
  · simp only [conjunctionTrue, boolAbsorb, Bool.and_eq_true, kind?_compound, beq_iff_eq,
      Option.some.injEq] at fires
    obtain ⟨rfl, found⟩ := fires
    exact boolAbsorb_meaning leaf (Or.inl ⟨rfl, rfl⟩) found done
  · simp only [conjunctionFalse, boolAbsorb, Bool.and_eq_true, kind?_compound, beq_iff_eq,
      Option.some.injEq] at fires
    obtain ⟨rfl, found⟩ := fires
    exact boolAbsorb_meaning leaf (Or.inl ⟨rfl, rfl⟩) found done
  · simp only [disjunctionTrue, boolAbsorb, Bool.and_eq_true, kind?_compound, beq_iff_eq,
      Option.some.injEq] at fires
    obtain ⟨rfl, found⟩ := fires
    exact boolAbsorb_meaning leaf (Or.inr ⟨rfl, rfl⟩) found done
  · simp only [disjunctionFalse, boolAbsorb, Bool.and_eq_true, kind?_compound, beq_iff_eq,
      Option.some.injEq] at fires
    obtain ⟨rfl, found⟩ := fires
    exact boolAbsorb_meaning leaf (Or.inr ⟨rfl, rfl⟩) found done

/-! ### The pass, the loop and the recursion keep the value -/

/-- A term whose pass is about its Boolean value: a connective the constructor built of
canonical arguments, or a term that is canonical already. -/
inductive Readable (collator : Collator) : Term → Prop
  | canonical (term : Term) (canonical : Canonical id collator term) : Readable collator term
  | connective (kind : OperatorKey) (args : List Term) (boolean : connective kind = true)
      (canonical : ∀ arg ∈ args, Canonical id collator arg)
      (rebuilt : compoundOf collator kind args = .ok (.compound kind args)) :
      Readable collator (.compound kind args)

theorem compoundOf_readable (boolean : connective kind = true)
    (canonical : ∀ arg ∈ args, Canonical id collator arg)
    (built : compoundOf collator kind args = .ok term) : Readable collator term := by
  cases compoundOf_stage canonical built with
  | done _ done => exact .canonical term done
  | underway inner innerArgs innerCanonical rebuilt _ =>
    rcases compoundOf_cases built with folds | ⟨_, _, equal⟩
    · exact .canonical _ (folded_canonical canonical folds)
    · rw [(Term.compound.inj equal).1] at rebuilt ⊢
      exact .connective kind innerArgs boolean innerCanonical rebuilt

theorem reduce_readable (boolean : connective kind = true)
    (canonical : ∀ arg ∈ args, Canonical id collator arg) {reducer}
    (member : reducer ∈ termReducers id collator)
    (fires : reducer.applies (.compound kind args) = true)
    (done : reducer.reduce (.compound kind args) = .ok next) : Readable collator next := by
  have constant : ∀ symbol, atomOf symbol = .ok next → Readable collator next := by
    intro symbol built
    rw [atomOf_eq built]
    exact .canonical _ (.atom symbol)
  have absorb : ∀ (id : String) (absorbed : OperatorKey) (symbol : BoolSymbol)
      (absorbing : Bool), connective absorbed = true →
      reducer = boolAbsorb collator id absorbed symbol absorbing → Readable collator next := by
    rintro id absorbed symbol absorbing booleanToo rfl
    cases absorbing with
    | true => exact constant symbol.text done
    | false =>
      exact compoundOf_readable booleanToo
        (fun arg inside => canonical arg (List.mem_of_mem_filter inside)) done
  simp only [termReducers, List.mem_cons, List.not_mem_nil, or_false] at member
  rcases member with rfl | rfl | rfl | rfl | rfl | rfl | rfl | same | same | same | same
  · simp only [flattenNested, Bool.and_eq_true] at fires
    exact compoundOf_readable boolean
      (fun arg inside => (spliced_canonical fires.1 canonical arg inside).1) done
  · exact compoundOf_readable boolean
      (fun arg inside => canonical arg (mem_of_mem_uniqueBy inside)) done
  · exact constant "FALSE" done
  · exact constant "TRUE" done
  · simp only [doubleNegation] at fires
    split at fires
    · rename_i inner rest equal
      obtain ⟨rfl, rfl⟩ := Term.compound.inj equal
      have negated := canonical _ List.mem_cons_self
      obtain ⟨operand, rfl⟩ := negated.negation_args
      rw [← Except.ok.inj done]
      exact .canonical _ (negated.args operand List.mem_cons_self)
    · cases fires
  · exact constant "FALSE" done
  · exact constant "TRUE" done
  · exact absorb _ _ _ _ rfl same
  · exact absorb _ _ _ _ rfl same
  · exact absorb _ _ _ _ rfl same
  · exact absorb _ _ _ _ rfl same

theorem settle_meaning {original normal passes} (readable : Readable collator term)
    (done : settle (termReducers id collator) original passes term = .ok normal) :
    meaning leaf normal = meaning leaf term := by
  have step : ∀ reducer ∈ termReducers id collator, ∀ current next,
      (Readable collator current ∧ meaning leaf current = meaning leaf term) →
      reducer.applies current = true → reducer.reduce current = .ok next →
      Readable collator next ∧ meaning leaf next = meaning leaf term := by
    rintro reducer member current next ⟨currentReadable, same⟩ fires reduced
    cases currentReadable with
    | canonical _ canonical => exact absurd fires (by simp [canonical.settled reducer member])
    | connective kind args boolean canonical rebuilt =>
      exact ⟨reduce_readable boolean canonical member fires reduced,
        (reduce_meaning leaf boolean canonical rebuilt member fires reduced).trans same⟩
  exact (settle_preserves step ⟨readable, rfl⟩ done).2

end Preservation

/-! ### Normalising keeps the value -/

/-- The canonical form of a term, or the term itself where it has none. -/
def canonicalForm (collator : Collator) (term : Term) : Term :=
  match canonicalTerm id collator term with
  | .ok normal => normal
  | .error _ => term

variable {collator : Collator} {term : Term}

theorem canonicalForm_eq {normal} (done : canonicalTerm id collator term = .ok normal) :
    canonicalForm collator term = normal := by
  rw [canonicalForm, done]

/-- The value of an opaque node: the value of its canonical form, in which the valuation is
asked only for nodes that are opaque themselves. -/
def leafMeaning (collator : Collator) (valuation : Term → Bool) (term : Term) : Bool :=
  meaning valuation (canonicalForm collator term)

theorem connected_leaf {kind} (boolean : connective kind = true) {args}
    (built : compoundOf collator kind args = .ok term) {values}
    (length : values.length = args.length) (first second : Bool) :
    connected kind values first = connected kind values second := by
  cases kind <;> first | exact absurd boolean (by decide) | rfl | skip
  obtain ⟨operand, rfl⟩ := negation_args_of_rebuilt built
  obtain ⟨value, rfl⟩ := List.length_eq_one_iff.mp length
  rfl

theorem meaning_canonicalTerm (valuation : Term → Bool) {normal}
    (done : canonicalTerm id collator term = .ok normal) :
    meaning valuation normal = meaning (leafMeaning collator valuation) term := by
  induction term generalizing normal with
  | atom symbol =>
    obtain rfl := Except.ok.inj done
    unfold meaning leafMeaning
    rw [canonicalForm_eq done, meaning]
    split
    · rfl
    split
    · rfl
    · rfl
  | compound kind args ih =>
    by_cases boolean : connective kind = true
    · obtain ⟨normals, current, each, built, settled⟩ := canonicalTerm_compound.mp done
      have canonical : ∀ inner ∈ normals, Canonical id collator inner := by
        intro inner member
        obtain ⟨arg, _, argDone⟩ := exists_left_of_forall₂ each member
        exact canonicalTerm_canonical argDone
      have values : normals.map (meaning valuation) =
          args.map (meaning (leafMeaning collator valuation)) := by
        clear done built settled canonical
        induction each with
        | nil => rfl
        | cons argDone _ rest =>
          rw [List.map_cons, List.map_cons, ih _ List.mem_cons_self argDone,
            rest fun arg member => ih arg (List.mem_cons_of_mem _ member)]
      rw [settle_meaning valuation (compoundOf_readable boolean canonical built) settled,
        compoundOf_meaning valuation boolean built, meaning, meaning, meanings_eq, meanings_eq,
        ← values]
      exact connected_leaf boolean built (List.length_map _) _ _
    · rw [meaning_leaf _ (Bool.not_eq_true _ ▸ boolean), leafMeaning, canonicalForm_eq done]

/-- Normalising keeps the Boolean value of a term, an opaque node having the value of its
canonical form. -/
theorem canonicalTerm_meaning (collator : Collator) (valuation : Term → Bool)
    {term normal : Term} (done : canonicalTerm id collator term = .ok normal) :
    meaning (leafMeaning collator valuation) normal =
      meaning (leafMeaning collator valuation) term := by
  rw [← meaning_canonicalTerm valuation done,
    ← meaning_canonicalTerm valuation (canonicalTerm_canonical done).canonicalTerm_eq]

/-- `--(a &| a)` normalises to `--a`, and the two have one value. -/
theorem canonicalTerm_meaning_parallel :
    meaning (leafMeaning codePointCollator fun term => term == .atom "a")
        (.compound .negation [.atom "a"]) =
      meaning (leafMeaning codePointCollator fun term => term == .atom "a")
        (.compound .negation [.compound .parallel [.atom "a", .atom "a"]]) :=
  canonicalTerm_meaning codePointCollator (fun term => term == .atom "a") (by decide)

/-- A valuation asked for the canonical form of every opaque node may contradict the constants:
`(TRUE &| TRUE)` is opaque and its canonical form is `TRUE`. -/
theorem valuation_of_collapsed_parallel :
    ¬ ∀ (collator : Collator) (valuation : Term → Bool) (term normal : Term),
      canonicalTerm id collator term = .ok normal →
        meaning (fun node => valuation (canonicalForm collator node)) normal =
          meaning (fun node => valuation (canonicalForm collator node)) term := by
  intro preserved
  exact absurd (preserved codePointCollator (fun _ => false)
    (.compound .parallel [trueAtom, trueAtom]) trueAtom (by decide)) (by decide)

end Senars.Terms
