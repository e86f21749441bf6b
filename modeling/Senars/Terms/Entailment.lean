/-
This file is the propositional reading of terms, with implication and equivalence
among the connectives, and what the builder makes of connectives in it.

The reading is that of normalisation with a valuation that looks into an
implication and an equivalence itself, so its laws carry over. What does not is
that the reducers compare arguments by their key: two arguments with one key are
taken for each other. So each connective is built here for the arguments the rules
build it from, among which the keys do no harm.
-/

import Senars.Terms.BooleanMeaning

namespace Senars.Terms

open Library

/-! ### The propositional value of a term -/

/-- The value of a node from the values of its arguments, and from the value it has when it is
a variable. -/
def propositional : OperatorKey → List Bool → Bool → Bool
  | .implication, antecedent :: consequent :: _, _ => !antecedent || consequent
  | .equivalence, first :: second :: _, _ => first == second
  | kind, values, variableValue => connected kind values variableValue

mutual

/-- Whether a term holds under a valuation of the terms that are no connectives. -/
def holds (valuation : Term → Bool) : Term → Bool
  | .atom symbol =>
    if symbol = "TRUE" then true
    else if symbol = "FALSE" then false
    else valuation (.atom symbol)
  | .compound kind args =>
    propositional kind (holdsEach valuation args) (valuation (.compound kind args))

def holdsEach (valuation : Term → Bool) : List Term → List Bool
  | [] => []
  | arg :: rest => holds valuation arg :: holdsEach valuation rest

end

/-- Where both premises hold, the conclusion holds. -/
def Entails (first second conclusion : Term) : Prop :=
  ∀ valuation, holds valuation first = true → holds valuation second = true →
    holds valuation conclusion = true

section Values

variable (valuation : Term → Bool)

theorem holdsEach_eq (args : List Term) :
    holdsEach valuation args = args.map (holds valuation) := by
  induction args with
  | nil => rfl
  | cons arg rest ih => rw [holdsEach, ih, List.map_cons]

theorem holds_implication (antecedent consequent : Term) (rest : List Term) :
    holds valuation (.compound .implication (antecedent :: consequent :: rest)) =
      (!holds valuation antecedent || holds valuation consequent) := rfl

theorem holds_equivalence (first second : Term) (rest : List Term) :
    holds valuation (.compound .equivalence (first :: second :: rest)) =
      (holds valuation first == holds valuation second) := rfl

theorem meaning_holds (term : Term) : meaning (holds valuation) term = holds valuation term := by
  induction term with
  | atom symbol =>
    unfold meaning
    split
    · rename_i same
      rw [same]
      rfl
    split
    · rename_i same
      rw [same]
      rfl
    · rfl
  | compound kind args ih =>
    have each : meanings (holds valuation) args = holdsEach valuation args := by
      rw [meanings_eq, holdsEach_eq]
      exact List.map_congr_left ih
    by_cases boolean : connective kind = true
    · rw [meaning, each]
      cases kind <;> first | exact absurd boolean (by decide) | rfl | skip
      rcases args with _ | ⟨operand, _ | ⟨other, rest⟩⟩ <;> rfl
    · exact meaning_leaf _ (Bool.not_eq_true _ ▸ boolean) args

theorem holds_conjunction (args : List Term) :
    holds valuation (.compound .conjunction args) = args.all (holds valuation) := by
  rw [← meaning_holds, meaning_conjunction]
  exact congrArg args.all (funext (meaning_holds valuation))

theorem holds_disjunction (args : List Term) :
    holds valuation (.compound .disjunction args) = args.any (holds valuation) := by
  rw [← meaning_holds, meaning_disjunction]
  exact congrArg args.any (funext (meaning_holds valuation))

theorem holds_negation (operand : Term) :
    holds valuation (.compound .negation [operand]) = !holds valuation operand := rfl

theorem holds_compoundOf {collator kind} (boolean : connective kind = true) {args term}
    (built : compoundOf collator kind args = .ok term) :
    holds valuation term = holds valuation (.compound kind args) := by
  rw [← meaning_holds, ← meaning_holds]
  exact compoundOf_meaning (holds valuation) boolean built

end Values

/-! ### What the builder makes of canonical arguments -/

section Builder

variable {collator : Collator} {kind : OperatorKey} {args : List Term} {term : Term}

theorem quiet_of_statement (statement : kind = .implication ∨ kind = .equivalence)
    (args : List Term) : ∀ reducer ∈ termReducers termKey collator,
      reducer.applies (.compound kind args) = false := by
  intro reducer member
  simp only [termReducers, List.mem_cons, List.not_mem_nil, or_false] at member
  rcases statement with rfl | rfl
  · rcases member with rfl | rfl | rfl | rfl | rfl | rfl | rfl | rfl | rfl | rfl | rfl <;> rfl
  · rcases member with rfl | rfl | rfl | rfl | rfl | rfl | rfl | rfl | rfl | rfl | rfl <;> rfl

section Pair

variable (valuation : Term → Bool) {first second : Term}
  (firstCanonical : Canonical termKey collator first)
  (secondCanonical : Canonical termKey collator second)

include firstCanonical secondCanonical

theorem createCompound_implication
    (built : createCompound termKey collator .implication [first, second] = .ok term) :
    term = .compound .implication [first, second] := by
  refine createCompound_preserves (fun current => current = .compound .implication [first, second])
    ?_ ?_ ?_ built
  · simpa using ⟨firstCanonical, secondCanonical⟩
  · exact fun current raw => (Except.ok.inj raw).symm
  · rintro reducer member current next rfl fires -
    exact absurd fires (by simp [quiet_of_statement (.inl rfl) _ reducer member])

theorem holds_createCompound_equivalence
    (built : createCompound termKey collator .equivalence [first, second] = .ok term) :
    holds valuation term = (holds valuation first == holds valuation second) := by
  have shape : term = .compound .equivalence
      ((canonicalOrder collator).toSorted [first, second]) := by
    refine createCompound_preserves (fun current => current = .compound .equivalence
      ((canonicalOrder collator).toSorted [first, second])) ?_ ?_ ?_ built
    · simpa using ⟨firstCanonical, secondCanonical⟩
    · exact fun current raw => (Except.ok.inj raw).symm
    · rintro reducer member current next rfl fires -
      exact absurd fires (by simp [quiet_of_statement (.inr rfl) _ reducer member])
  rcases (canonicalOrder collator).toSorted_pair first second with order | order
  · rw [shape, order, holds_equivalence]
  · rw [shape, order, holds_equivalence, Bool.beq_comm]

end Pair

theorem holds_createCompound_negation (valuation : Term → Bool) {operand}
    (canonical : Canonical termKey collator operand)
    (built : createCompound termKey collator .negation [operand] = .ok term) :
    holds valuation term = !holds valuation operand := by
  have each : ∀ arg ∈ [operand], Canonical termKey collator arg := by simpa using canonical
  refine (createCompound_preserves (fun current =>
    holds valuation current = (!holds valuation operand) ∧
      (Canonical termKey collator current ∨ current = .compound .negation [operand])) each
    ?_ ?_ built).1
  · intro current raw
    obtain rfl : .compound .negation [operand] = current := Except.ok.inj raw
    exact ⟨rfl, .inr rfl⟩
  · rintro reducer member current next ⟨value, whole | rfl⟩ fires done
    · exact absurd fires (by simp [whole.settled reducer member])
    have constant : ∀ symbol : BoolSymbol, reducer = negateBool symbol →
        holds valuation next = (!holds valuation operand) ∧
          (Canonical termKey collator next ∨ next = .compound .negation [operand]) := by
      rintro symbol rfl
      have same : operand = .atom symbol.text := beq_iff_eq.mp fires
      rw [atomOf_eq (done : atomOf symbol.other.text = .ok next), same]
      exact ⟨by cases symbol <;> rfl, .inl (.atom _)⟩
    simp only [termReducers, List.mem_cons, List.not_mem_nil, or_false] at member
    rcases member with rfl | rfl | rfl | rfl | rfl | same | same | rfl | rfl | rfl | rfl
    · cases fires
    · cases fires
    · cases fires
    · cases fires
    · cases operand with
      | atom symbol => cases fires
      | compound kind inner =>
        cases kind <;> cases fires
        obtain ⟨deeper, rfl⟩ := canonical.negation_args
        rw [← Except.ok.inj done, holds_negation, Bool.not_not]
        exact ⟨rfl, .inl (canonical.args deeper List.mem_cons_self)⟩
    · exact constant .TRUE same
    · exact constant .FALSE same
    · cases fires
    · cases fires
    · cases fires
    · cases fires

theorem createCompound_part (nary : naryOps kind = true)
    (canonical : Canonical termKey collator (.compound kind args)) {part}
    (inside : part.Subperm args) :
    ∃ term, compoundOf collator kind part = .ok term ∧
      createCompound termKey collator kind part = .ok term := by
  obtain ⟨term, raw, stage⟩ : ∃ term, compoundOf collator kind part = .ok term ∧
      Stage termKey collator (termReducers termKey collator) term :=
    rebuild_stage nary (fun arg member => canonical.args arg (inside.subset member))
      (fun _ member => member)
      fun reducer member => applies_antitone nary inside member (canonical.settled reducer member)
  refine ⟨term, raw, ?_⟩
  rw [createCompound, raw]
  exact (stage.canonical fun _ member => member).canonicalTerm_eq

theorem holds_createCompound_conjuncts (valuation : Term → Bool)
    (canonical : Canonical termKey collator (.compound .conjunction args)) {part}
    (inside : part.Subperm args)
    (built : createCompound termKey collator .conjunction part = .ok term)
    (premise : holds valuation (.compound .conjunction args) = true) :
    holds valuation term = true := by
  obtain ⟨raw, rawBuilt, same⟩ := createCompound_part rfl canonical inside
  cases same.symm.trans built
  rw [holds_compoundOf valuation rfl rawBuilt, holds_conjunction, List.all_eq_true]
  rw [holds_conjunction, List.all_eq_true] at premise
  exact fun arg member => premise arg (inside.subset member)

/-- A term that holds and is canonical, or a disjunction of some of the arguments. -/
def HoldsAmong (collator : Collator) (valuation : Term → Bool) (args : List Term)
    (current : Term) : Prop :=
  holds valuation current = true ∧
    (Canonical termKey collator current ∨
      ∃ inner, (∀ arg ∈ inner, arg ∈ args) ∧ current = .compound .disjunction inner)

section Disjuncts

variable {valuation : Term → Bool} (canonical : ∀ arg ∈ args, Canonical termKey collator arg)

include canonical

theorem holdsAmong_of_compoundOf {inner} (below : ∀ arg ∈ inner, arg ∈ args)
    (some : ∃ arg ∈ inner, holds valuation arg = true) {current}
    (built : compoundOf collator .disjunction inner = .ok current) :
    HoldsAmong collator valuation args current := by
  refine ⟨?_, ?_⟩
  · rw [holds_compoundOf valuation rfl built, holds_disjunction, List.any_eq_true]
    exact some
  · rcases compoundOf_cases built with folds | ⟨-, -, rfl⟩
    · exact .inl (folded_canonical (fun arg member => canonical arg (below arg member)) folds)
    · exact .inr ⟨_, fun arg member => below arg (Comparison.mem_toSorted.mp member), rfl⟩

section

variable (flat : ∀ arg ∈ args, arg.kind? ≠ some .disjunction)
  (told : ∀ first ∈ args, ∀ second ∈ args, termKey first = termKey second → first = second)

include flat told

theorem reduce_holdsAmong {reducer} (member : reducer ∈ termReducers termKey collator)
    {current next} (holding : HoldsAmong collator valuation args current)
    (fires : reducer.applies current = true) (done : reducer.reduce current = .ok next) :
    HoldsAmong collator valuation args next := by
  obtain ⟨value, whole | ⟨inner, below, rfl⟩⟩ := holding
  · exact absurd fires (by simp [whole.settled reducer member])
  rw [holds_disjunction, List.any_eq_true] at value
  obtain ⟨arg, argMember, argHolds⟩ := value
  have decided : atomOf "TRUE" = .ok next → HoldsAmong collator valuation args next := by
    intro built
    rw [atomOf_eq built]
    exact ⟨rfl, .inl (.atom _)⟩
  simp only [termReducers, List.mem_cons, List.not_mem_nil, or_false] at member
  rcases member with rfl | rfl | rfl | rfl | rfl | rfl | rfl | rfl | rfl | rfl | rfl
  · simp only [flattenNested, Bool.and_eq_true, List.any_eq_true, beq_iff_eq] at fires
    obtain ⟨-, nested, nestedMember, same⟩ := fires
    exact absurd same (flat nested (below nested nestedMember))
  · refine holdsAmong_of_compoundOf canonical
      (fun other inside => below other (mem_of_mem_uniqueBy inside)) ?_ done
    obtain ⟨kept, keptMember, same⟩ := uniqueBy_covers termKey argMember
    obtain rfl := told kept (below kept (mem_of_mem_uniqueBy keptMember)) arg
      (below arg argMember) same
    exact ⟨kept, keptMember, argHolds⟩
  · cases fires
  · exact decided done
  · cases fires
  · cases fires
  · cases fires
  · cases fires
  · cases fires
  · exact decided done
  · refine holdsAmong_of_compoundOf canonical
      (fun other inside => below other (List.mem_of_mem_filter inside)) ?_ done
    refine ⟨arg, List.mem_filter.mpr ⟨argMember, ?_⟩, argHolds⟩
    cases dropped : BoolSymbol.FALSE.isAtomOf arg with
    | false => rfl
    | true =>
      have same : arg = .atom "FALSE" := beq_iff_eq.mp (Bool.and_eq_true_iff.mp dropped).2
      rw [same] at argHolds
      cases argHolds

theorem holds_createCompound_disjuncts (some : ∃ arg ∈ args, holds valuation arg = true)
    (built : createCompound termKey collator .disjunction args = .ok term) :
    holds valuation term = true := by
  refine (createCompound_preserves (HoldsAmong collator valuation args) canonical
    (fun current raw => ?_) (fun reducer member current next holding fires done => ?_) built).1
  · exact holdsAmong_of_compoundOf canonical (fun _ member => member) some raw
  · exact reduce_holdsAmong canonical flat told member holding fires done

end

end Disjuncts

end Builder

end Senars.Terms
