/-
This file is the soundness of the strong rules: what a shipped rule over the
connectives concludes follows from its premises, for the truth functions that keep
the premises' strength.

Three kinds of rule are not sound as they are declared. A negation twice is no
contradiction, a statement and any negation make no implication, and the same
implication twice makes no equivalence; from two implications that face each other
the equivalence does follow.
-/

import Senars.Rules.Registration
import Senars.Terms.Entailment
import Senars.Terms.Symbols

namespace Senars.Rules

open Library Terms

/-! ### Inverting a body -/

section Inversion

variable {collator : Collator} {kind : OperatorKey} {args : List Term} {conclusion : Term}

theorem concluding_eq_some :
    concluding collator kind args = .ok (some conclusion) ↔
      createCompound termKey collator kind args = .ok conclusion := by
  unfold concluding
  cases createCompound termKey collator kind args with
  | error error => simp [Except.map]
  | ok term => simp [Except.map]

theorem buildPairRule_eq_some {leftKind rightKind derive p1 p2}
    (concludes : buildPairRule leftKind rightKind derive (p1, p2) = .ok (some conclusion)) :
    ∃ first second rest other another others,
      p1 = .compound leftKind (first :: second :: rest) ∧
      p2 = .compound rightKind (other :: another :: others) ∧
      derive (first, second) (other, another) = .ok (some conclusion) := by
  simp only [buildPairRule] at concludes
  split at concludes
  · rename_i left right leftEnds rightEnds
    obtain ⟨first, second⟩ := left
    obtain ⟨other, another⟩ := right
    obtain ⟨rest, rfl⟩ := binaryOf_eq_some.mp leftEnds
    obtain ⟨others, rfl⟩ := binaryOf_eq_some.mp rightEnds
    exact ⟨first, second, rest, other, another, others, rfl, rfl, concludes⟩
  · cases concludes

end Inversion

/-! ### Sound bodies -/

section Bodies

variable {collator : Collator}

/-- Whatever a body concludes from factory-built premises that are admitted follows from them. -/
def SoundOn (collator : Collator) (admitted : Term → Term → Prop) (body : RuleFn) : Prop :=
  ∀ p1 p2 conclusion, FactoryBuilt collator p1 → FactoryBuilt collator p2 → admitted p1 p2 →
    body (p1, p2) = .ok (some conclusion) → Entails p1 p2 conclusion

def Sound (collator : Collator) (body : RuleFn) : Prop := SoundOn collator (fun _ _ => True) body

/-- Two implications that face each other. -/
def Facing (p1 p2 : Term) : Prop :=
  binaryOf .implication p2 = (binaryOf .implication p1).map Prod.swap

theorem sound_implicationElim : Sound collator implicationElim := by
  intro p1 p2 conclusion _ _ _ concludes valuation implies antecedent
  simp only [implicationElim] at concludes
  split at concludes
  · cases concludes
  rename_i ends found
  obtain ⟨first, second⟩ := ends
  obtain ⟨rest, rfl⟩ := binaryOf_eq_some.mp found
  split at concludes
  · rename_i same
    obtain rfl : first = p2 := termsEqual_iff.mp same.2
    obtain rfl : second = conclusion := by simpa using concludes
    rw [holds_implication, antecedent] at implies
    exact implies
  · cases concludes

theorem sound_equivalenceElim : Sound collator equivalenceElim := by
  intro p1 p2 conclusion _ _ _ concludes valuation equal side
  simp only [equivalenceElim] at concludes
  split at concludes
  · cases concludes
  rename_i ends found
  obtain ⟨first, second⟩ := ends
  obtain ⟨rest, rfl⟩ := binaryOf_eq_some.mp found
  split at concludes
  · rename_i same
    obtain rfl : second = conclusion := by simpa using concludes
    rcases Bool.or_eq_true_iff.mp same.2 with left | right
    · obtain rfl : first = p2 := termsEqual_iff.mp left
      rw [holds_equivalence, side] at equal
      exact (beq_iff_eq.mp equal).symm
    · obtain rfl : second = p2 := termsEqual_iff.mp right
      exact side
  · cases concludes

theorem sound_equivalenceIntro : SoundOn collator Facing (equivalenceIntro collator) := by
  intro p1 p2 conclusion built _ facing concludes valuation left right
  obtain ⟨first, second, rest, other, another, others, rfl, rfl, derived⟩ :=
    buildPairRule_eq_some concludes
  obtain ⟨rfl, rfl⟩ : other = second ∧ another = first := by
    simpa [Facing, binaryOf] using facing
  have canonical := built.canonical.args
  split at derived
  · rw [holds_createCompound_equivalence valuation (canonical _ List.mem_cons_self)
      (canonical _ (List.mem_cons_of_mem _ List.mem_cons_self)) (concluding_eq_some.mp derived)]
    rw [holds_implication] at left right
    revert left right
    cases holds valuation other <;> cases holds valuation another <;> decide
  · cases derived

theorem sound_negationIntro : Sound collator (negationIntro collator) := by
  intro p1 p2 conclusion built _ _ concludes valuation _ _
  obtain ⟨first, second, rest, other, another, others, rfl, rfl, derived⟩ :=
    buildPairRule_eq_some concludes
  split at derived
  · rename_i same
    simp only [isTrueFalse, Bool.and_eq_true, decide_eq_true_eq, termsEqual_iff] at same
    obtain ⟨rfl, -, rfl⟩ := same
    rw [holds_createCompound_negation valuation (.atom _) (concluding_eq_some.mp derived)]
    rfl
  · cases derived

theorem sound_higherOrderDeduction : Sound collator (higherOrderDeduction collator) := by
  intro p1 p2 conclusion built otherBuilt _ concludes valuation left right
  obtain ⟨first, second, rest, other, another, others, rfl, rfl, derived⟩ :=
    buildPairRule_eq_some concludes
  split at derived
  · rename_i same
    obtain rfl : second = other := termsEqual_iff.mp same
    obtain rfl := createCompound_implication (built.canonical.args _ List.mem_cons_self)
      (otherBuilt.canonical.args _ (List.mem_cons_of_mem _ List.mem_cons_self))
      (concluding_eq_some.mp derived)
    rw [holds_implication] at left right ⊢
    revert left right
    cases holds valuation first <;> cases holds valuation second <;> simp
  · cases derived

theorem holds_of_negation {negated operand} (built : FactoryBuilt collator negated)
    (found : unaryOf .negation negated = some operand) (valuation : Term → Bool) :
    holds valuation negated = !holds valuation operand := by
  obtain ⟨rest, rfl⟩ := unaryOf_eq_some.mp found
  obtain ⟨only, same⟩ := built.canonical.negation_args
  obtain ⟨rfl, rfl⟩ := List.cons.inj same
  exact holds_negation valuation operand

theorem sound_modusTollens : Sound collator (modusTollens collator) := by
  intro p1 p2 conclusion built otherBuilt _ concludes valuation implies negated
  simp only [modusTollens] at concludes
  split at concludes
  · rename_i ends consequent found operand
    obtain ⟨first, second⟩ := ends
    obtain ⟨rest, rfl⟩ := binaryOf_eq_some.mp found
    split at concludes
    · rename_i same
      obtain rfl : second = consequent := termsEqual_iff.mp same
      rw [holds_of_negation otherBuilt operand, Bool.not_eq_true'] at negated
      rw [holds_implication, negated, Bool.or_false] at implies
      rw [holds_createCompound_negation valuation (built.canonical.args _ List.mem_cons_self)
        (concluding_eq_some.mp concludes)]
      exact implies
    · cases concludes
  · cases concludes

theorem sound_contrapositionRule : Sound collator (contrapositionRule collator) := by
  intro p1 p2 conclusion built _ _ concludes valuation implies _
  simp only [contrapositionRule] at concludes
  split at concludes
  · cases concludes
  rename_i ends found
  obtain ⟨first, second⟩ := ends
  obtain ⟨rest, rfl⟩ := binaryOf_eq_some.mp found
  have firstCanonical := built.canonical.args first List.mem_cons_self
  have secondCanonical := built.canonical.args second (List.mem_cons_of_mem _ List.mem_cons_self)
  obtain ⟨antecedent, antecedentBuilt, others⟩ := bind_eq_ok.mp concludes
  obtain ⟨consequent, consequentBuilt, joined⟩ := bind_eq_ok.mp others
  obtain rfl := createCompound_implication (createCompound_canonical antecedentBuilt)
    (createCompound_canonical consequentBuilt) (concluding_eq_some.mp joined)
  rw [holds_implication,
    holds_createCompound_negation valuation secondCanonical antecedentBuilt,
    holds_createCompound_negation valuation firstCanonical consequentBuilt, Bool.not_not,
    Bool.or_comm, ← holds_implication valuation first second rest]
  exact implies

theorem sound_disjunctiveSyllogism : Sound collator disjunctiveSyllogism := by
  intro p1 p2 conclusion _ otherBuilt _ concludes valuation some negated
  simp only [disjunctiveSyllogism] at concludes
  split at concludes
  · rename_i left right negTerm premises
    obtain ⟨rfl, rfl⟩ := Prod.mk.inj premises
    split at concludes
    · cases concludes
    rename_i operand found
    rw [holds_of_negation otherBuilt found, Bool.not_eq_true'] at negated
    rw [holds_disjunction, List.any_cons, List.any_cons, List.any_nil, Bool.or_false] at some
    split at concludes
    · rename_i same
      obtain rfl : left = operand := termsEqual_iff.mp same
      obtain rfl : right = conclusion := by simpa using concludes
      rw [negated] at some
      exact some
    split at concludes
    · rename_i same
      obtain rfl : right = operand := termsEqual_iff.mp same
      obtain rfl : left = conclusion := by simpa using concludes
      rw [negated, Bool.or_false] at some
      exact some
    · cases concludes
  · cases concludes

theorem entails_conjunct {p1 p2 conjunct} (conjunction : p1.kind? = some .conjunction)
    (member : conjunct ∈ getArgs p1) : Entails p1 p2 conjunct := by
  intro valuation all _
  cases p1 with
  | atom symbol => cases conjunction
  | compound kind args =>
    cases conjunction
    rw [holds_conjunction, List.all_eq_true] at all
    exact all conjunct member

theorem sound_destruct : Sound collator destruct := by
  intro p1 p2 conclusion _ _ _ concludes
  simp only [destruct] at concludes
  split at concludes
  · rename_i kinds
    exact entails_conjunct kinds.1 (List.mem_of_find?_eq_some (Except.ok.inj concludes))
  · cases concludes

theorem sound_decompose : Sound collator decompose := by
  intro p1 p2 conclusion _ _ _ concludes
  simp only [decompose] at concludes
  split at concludes
  · rename_i kinds
    exact entails_conjunct kinds.1 (List.mem_of_find?_eq_some (Except.ok.inj concludes))
  · cases concludes

theorem sound_decomposition : Sound collator decomposition := by
  intro p1 p2 conclusion _ _ _ concludes
  simp only [decomposition] at concludes
  split at concludes
  · rename_i kinds
    exact entails_conjunct kinds.1 (List.mem_of_mem_head? (Except.ok.inj concludes))
  · cases concludes

/-! ### Folding argument lists -/

theorem termKey_atom_injective {first second}
    (same : termKey (.atom first) = termKey (.atom second)) : first = second := by
  simpa [termKey] using same

theorem sound_disjunctionIntro : Sound collator (disjunctionIntro collator) := by
  intro p1 p2 conclusion _ _ _ concludes valuation left _
  simp only [disjunctionIntro] at concludes
  split at concludes
  · rename_i first second premises
    obtain ⟨rfl, rfl⟩ := Prod.mk.inj premises
    have atoms : ∀ arg ∈ [Term.atom first, .atom second], ∃ symbol, arg = .atom symbol := by simp
    refine holds_createCompound_disjuncts (fun arg member => ?_) (fun arg member => ?_)
      (fun arg member other otherMember same => ?_) ⟨_, List.mem_cons_self, left⟩
      (concluding_eq_some.mp concludes)
    · obtain ⟨symbol, rfl⟩ := atoms arg member
      exact .atom symbol
    · obtain ⟨symbol, rfl⟩ := atoms arg member
      simp
    · obtain ⟨symbol, rfl⟩ := atoms arg member
      obtain ⟨otherSymbol, rfl⟩ := atoms other otherMember
      rw [termKey_atom_injective same]
  · cases concludes

/-- The arguments a fold of two argument lists keeps. -/
def foldedArgs (unique : Bool) (a1 a2 : List Term) : List Term :=
  if unique then uniqueBy termKey (a1 ++ a2)
  else a1.filter fun arg => decide (termKey arg ∈ a2.map termKey)

theorem foldNary_eq_some {kind unique p1 p2 conclusion}
    (boolean : kind = .conjunction ∨ kind = .disjunction)
    (concludes : foldNary collator kind unique (p1, p2) = .ok (some conclusion)) :
    ∃ a1 a2, p1 = .compound kind a1 ∧ p2 = .compound kind a2 ∧
      createCompound termKey collator kind (foldedArgs unique a1 a2) = .ok conclusion := by
  rw [foldNary] at concludes
  by_cases kinds : p1.kind? ≠ some kind ∨ p2.kind? ≠ some kind
  · rw [if_pos kinds] at concludes
    cases concludes
  rw [if_neg kinds] at concludes
  rw [not_or, not_not, not_not] at kinds
  cases p1 with
  | atom symbol => cases kinds.1
  | compound firstKind a1 =>
    cases p2 with
    | atom symbol => cases kinds.2
    | compound secondKind a2 =>
      cases kinds.1
      obtain rfl := Option.some.inj kinds.2
      refine ⟨a1, a2, rfl, rfl, ?_⟩
      change (if 0 < (foldedArgs unique a1 a2).length then
        if secondKind = .conjunction then
          concluding collator .conjunction (foldedArgs unique a1 a2)
        else concluding collator .disjunction (foldedArgs unique a1 a2)
        else .ok none) = .ok (some conclusion) at concludes
      split at concludes
      · rcases boolean with rfl | rfl
        · exact concluding_eq_some.mp (by simpa using concludes)
        · exact concluding_eq_some.mp (by simpa using concludes)
      · cases concludes

theorem sound_intersection : Sound collator (intersection collator) := by
  intro p1 p2 conclusion built _ _ concludes valuation left _
  obtain ⟨a1, a2, rfl, rfl, folds⟩ := foldNary_eq_some (.inl rfl) concludes
  exact holds_createCompound_conjuncts valuation built.canonical List.filter_sublist.subperm folds
    left

theorem sound_union : Sound collator (union collator) := by
  intro p1 p2 conclusion built otherBuilt _ concludes valuation left _
  obtain ⟨a1, a2, rfl, rfl, folds⟩ := foldNary_eq_some (.inr rfl) concludes
  have canonical : ∀ arg ∈ a1 ++ a2, Canonical termKey collator arg ∧
      arg.kind? ≠ some .disjunction := by
    intro arg member
    rcases List.mem_append.mp member with first | second
    · exact ⟨built.canonical.args arg first, built.canonical.flat rfl arg first⟩
    · exact ⟨otherBuilt.canonical.args arg second, otherBuilt.canonical.flat rfl arg second⟩
  have distinct : (a1.map termKey).Nodup := by
    have quiet := built.canonical.settled (dedupeArgs termKey collator) (by simp [termReducers])
    have repeated : (!decide (a1.map termKey).Nodup) = false := quiet
    exact of_decide_eq_true (by simpa using repeated)
  have kept : ∀ arg ∈ uniqueBy termKey (a1 ++ a2), arg ∈ a1 ++ a2 := fun arg =>
    mem_of_mem_uniqueBy
  rw [holds_disjunction, List.any_eq_true] at left
  obtain ⟨arg, member, argHolds⟩ := left
  refine holds_createCompound_disjuncts
    (fun other inside => (canonical other (kept other inside)).1)
    (fun other inside => (canonical other (kept other inside)).2)
    (fun first firstMember second secondMember same => ?_)
    ⟨arg, mem_uniqueBy_append distinct a2 member, argHolds⟩ folds
  exact List.inj_on_of_nodup_map (uniqueBy_nodup termKey (a1 ++ a2)) firstMember secondMember same

end Bodies

/-! ### The shipped strong rules -/

/-- The truth functions that keep the strength of the premises. -/
def strongTruth : TruthName → Bool
  | .deduction | .intersection | .union | .contraposition => true
  | _ => false

/-- Whether a kind of premise is an atom or a connective. -/
def overConnectives : Option OperatorKey → Bool
  | none => true
  | some .conjunction | some .disjunction | some .negation | some .implication
  | some .equivalence => true
  | _ => false

/-- The strong rules over the connectives, with the introduction of an implication. -/
def Strong (rule : RuleDef) : Bool :=
  strongTruth rule.truth &&
    (overConnectives rule.pattern.1 && overConnectives rule.pattern.2 ||
      rule.id == "nal.implicationIntro")

/-- The strong rules that are not sound. -/
def unsoundRules : List String := ["nal.implicationIntro", "nal.negationElim"]

/-- The strong rules that are sound for implications that face each other. -/
def facingRules : List String := ["nal.equivalenceIntro", "nal.equivalence"]

/-- The bodies of the strong rules that are sound. -/
def soundBodies : List String :=
  ["nal:intersection", "nal:union", "nal:disjunctionIntro", "nal:implicationElim",
    "nal:equivalenceElim", "nal:negationIntro", "nal:destruct", "nal:decompose",
    "nal:higherOrderDeduction", "nal.extended:modusPonens", "nal.extended:modusTollens",
    "nal.extended:disjunctiveSyllogism", "nal.extended:contrapositionRule",
    "nal.extended:implicationDeduction", "nal.extended:decomposition"]

theorem strong_bodies : ∀ rule ∈ builtinDeclarations, Strong rule = true →
    rule.id ∈ unsoundRules ∨ rule.body ∈ soundBodies ∨
      rule.id ∈ facingRules ∧ rule.body ∈ ["nal:equivalenceIntro", "nal.extended:equivalence"] := by
  decide

theorem sound_of_soundBodies {collator} : ∀ name ∈ soundBodies,
    ∃ body, bodyOf collator name = some body ∧ Sound collator body := by
  simp only [soundBodies, List.forall_mem_cons]
  exact ⟨⟨_, rfl, sound_intersection⟩, ⟨_, rfl, sound_union⟩, ⟨_, rfl, sound_disjunctionIntro⟩,
    ⟨_, rfl, sound_implicationElim⟩, ⟨_, rfl, sound_equivalenceElim⟩, ⟨_, rfl, sound_negationIntro⟩,
    ⟨_, rfl, sound_destruct⟩, ⟨_, rfl, sound_decompose⟩, ⟨_, rfl, sound_higherOrderDeduction⟩,
    ⟨_, rfl, sound_implicationElim⟩, ⟨_, rfl, sound_modusTollens⟩,
    ⟨_, rfl, sound_disjunctiveSyllogism⟩, ⟨_, rfl, sound_contrapositionRule⟩,
    ⟨_, rfl, sound_higherOrderDeduction⟩, ⟨_, rfl, sound_decomposition⟩,
    fun _ member => absurd member List.not_mem_nil⟩

/-- Every shipped strong rule other than the two unsound ones has a body, and what that concludes
from factory-built premises follows from them, for the equivalence rules from premises that
face each other. -/
theorem strong_rules_sound (collator : Collator) (rule : RuleDef)
    (shipped : rule ∈ builtinDeclarations) (strong : Strong rule = true)
    (sound : rule.id ∉ unsoundRules) :
    ∃ body, bodyOf collator rule.body = some body ∧
      ∀ p1 p2 conclusion, FactoryBuilt collator p1 → FactoryBuilt collator p2 →
        (rule.id ∈ facingRules → Facing p1 p2) → body (p1, p2) = .ok (some conclusion) →
          Entails p1 p2 conclusion := by
  rcases strong_bodies rule shipped strong with unsound | named | ⟨facing, named⟩
  · exact absurd unsound sound
  · obtain ⟨body, found, whole⟩ := sound_of_soundBodies rule.body named
    exact ⟨body, found, fun p1 p2 conclusion first second _ concludes =>
      whole p1 p2 conclusion first second trivial concludes⟩
  · refine ⟨equivalenceIntro collator, ?_, fun p1 p2 conclusion first second faces concludes =>
      sound_equivalenceIntro p1 p2 conclusion first second (faces facing) concludes⟩
    rcases List.mem_cons.mp named with same | rest
    · rw [same]
      rfl
    · rw [List.mem_singleton.mp rest]
      rfl

section Instances

theorem atom_a_built : FactoryBuilt codePointCollator (.atom "a") := .atom "a" _ (by decide)

theorem atom_b_built : FactoryBuilt codePointCollator (.atom "b") := .atom "b" _ (by decide)

theorem a_implies_b_built :
    FactoryBuilt codePointCollator (.compound .implication [.atom "a", .atom "b"]) :=
  .compound .implication [.atom "a", .atom "b"] _ (by simpa using ⟨atom_a_built, atom_b_built⟩)
    (by decide)

theorem not_b_built : FactoryBuilt codePointCollator (.compound .negation [.atom "b"]) :=
  .compound .negation [.atom "b"] _ (by simpa using atom_b_built) (by decide)

/-- Modus tollens is sound. -/
theorem strong_rules_sound_modusTollens :
    Entails (.compound .implication [.atom "a", .atom "b"]) (.compound .negation [.atom "b"])
      (.compound .negation [.atom "a"]) := by
  obtain ⟨body, named, sound⟩ := strong_rules_sound codePointCollator
    ⟨"nal.modusTollens", RulePatterns.implicationNegation, "nal.extended:modusTollens",
      .contraposition⟩ (by decide) (by decide) (by decide)
  obtain rfl : modusTollens codePointCollator = body := Option.some.inj named
  exact sound _ _ _ a_implies_b_built not_b_built (fun facing => absurd facing (by decide))
    (by decide)

/-- A shipped strong rule concludes what does not follow. -/
def UnsoundRule (collator : Collator) (id : String) : Prop :=
  ∃ rule ∈ builtinDeclarations, rule.id = id ∧ Strong rule = true ∧
    ∃ body, bodyOf collator rule.body = some body ∧ ¬ Sound collator body

theorem equivalenceIntro_unsound :
    ¬ Sound codePointCollator (equivalenceIntro codePointCollator) := by
  intro sound
  exact absurd (sound _ _ (.compound .equivalence [.atom "a", .atom "b"]) a_implies_b_built
    a_implies_b_built trivial (by decide) (fun term => term == .atom "b") (by decide) (by decide))
    (by decide)

theorem negationElim_unsound : ¬ Sound codePointCollator negationElim := by
  intro sound
  exact absurd (sound _ _ falseAtom not_b_built not_b_built trivial (by decide) (fun _ => false)
    (by decide) (by decide)) (by decide)

theorem implicationIntro_unsound :
    ¬ Sound codePointCollator (implicationIntro codePointCollator) := by
  have inherits : FactoryBuilt codePointCollator
      (.compound .inheritance [.atom "a", .atom "b"]) :=
    .compound .inheritance [.atom "a", .atom "b"] _ (by simpa using ⟨atom_a_built, atom_b_built⟩)
      (by decide)
  intro sound
  exact absurd (sound _ _ (.compound .implication [.atom "a", .atom "b"]) inherits not_b_built
    trivial (by decide) (fun term => term != .atom "b") (by decide) (by decide)) (by decide)

/-- Four of the shipped strong rules conclude what does not follow. -/
theorem four_rules_unsound :
    UnsoundRule codePointCollator "nal.implicationIntro" ∧
      UnsoundRule codePointCollator "nal.negationElim" ∧
      UnsoundRule codePointCollator "nal.equivalenceIntro" ∧
      UnsoundRule codePointCollator "nal.equivalence" :=
  ⟨⟨⟨"nal.implicationIntro", RulePatterns.inheritanceNegation, "nal:implicationIntro", .deduction⟩,
      by decide, rfl, by decide, _, rfl, implicationIntro_unsound⟩,
    ⟨⟨"nal.negationElim", RulePatterns.negationNegation, "nal:negationElim", .union⟩,
      by decide, rfl, by decide, _, rfl, negationElim_unsound⟩,
    ⟨⟨"nal.equivalenceIntro", RulePatterns.implicationImplication, "nal:equivalenceIntro",
      .intersection⟩, by decide, rfl, by decide, _, rfl, equivalenceIntro_unsound⟩,
    ⟨⟨"nal.equivalence", RulePatterns.implicationImplication, "nal.extended:equivalence",
      .intersection⟩, by decide, rfl, by decide, _, rfl, equivalenceIntro_unsound⟩⟩

end Instances

end Senars.Rules
