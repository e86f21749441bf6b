/-
This file is the table of rules: what is declared, what of it is shipped, and the
bodies the declared names stand for.

A declaration has its identifier, the kinds of its two premises, the name of its
body and the name of its truth function. An atom, which has no kind of the
operator table, is `none`. Of the bodies only those over the connectives are here;
the names of the others stand for nothing.
-/

import Senars.Rules.Propositional

namespace Senars.Rules

open Library Terms

/-! ### Patterns -/

abbrev RulePattern := Option OperatorKey × Option OperatorKey

namespace RulePatterns

def inheritanceInheritance : RulePattern := (some .inheritance, some .inheritance)

def implicationInheritance : RulePattern := (some .implication, some .inheritance)

def conjunctionConjunction : RulePattern := (some .conjunction, some .conjunction)

def disjunctionDisjunction : RulePattern := (some .disjunction, some .disjunction)

def atomAtom : RulePattern := (none, none)

def inheritanceNegation : RulePattern := (some .inheritance, some .negation)

def implicationAtom : RulePattern := (some .implication, none)

def implicationImplication : RulePattern := (some .implication, some .implication)

def equivalenceAtom : RulePattern := (some .equivalence, none)

def negationNegation : RulePattern := (some .negation, some .negation)

def conjunctionAtom : RulePattern := (some .conjunction, none)

def inheritanceSimilarity : RulePattern := (some .inheritance, some .similarity)

def implicationNegation : RulePattern := (some .implication, some .negation)

def disjunctionNegation : RulePattern := (some .disjunction, some .negation)

def inheritanceSetExt : RulePattern := (some .inheritance, some .setExt)

def inheritanceSetInt : RulePattern := (some .inheritance, some .setInt)

def sequenceInheritance : RulePattern := (some .sequence, some .inheritance)

def predictiveSequence : RulePattern := (some .predictive, some .sequence)

def sequenceOperation : RulePattern := (some .sequence, some .operation)

def operationOperation : RulePattern := (some .operation, some .operation)

def operationSequence : RulePattern := (some .operation, some .sequence)

end RulePatterns

/-! ### Declarations -/

/-- The truth functions the table names. -/
inductive TruthName where
  | deduction | induction | abduction | resemblance | contraposition | intersection
  | union | analogy | sameness | exemplification | conversion | structuralReduction | revision
  deriving DecidableEq

structure RuleDef where
  id : String
  pattern : RulePattern
  body : String
  truth : TruthName
  deriving DecidableEq

open RulePatterns

def nalRules : List RuleDef :=
  [⟨"nal.deduction", inheritanceInheritance, "nal:deduction", .deduction⟩,
    ⟨"nal.induction", inheritanceInheritance, "nal:induction", .induction⟩,
    ⟨"nal.abduction", inheritanceInheritance, "nal:abduction", .abduction⟩,
    ⟨"nal.similarity", inheritanceInheritance, "nal:similarity", .resemblance⟩,
    ⟨"nal.contrapositive", implicationInheritance, "nal:contrapositive", .contraposition⟩,
    ⟨"nal.intersection", conjunctionConjunction, "nal:intersection", .intersection⟩,
    ⟨"nal.union", disjunctionDisjunction, "nal:union", .union⟩,
    ⟨"nal.conjunctionIntro", inheritanceInheritance, "nal:conjunctionIntro", .intersection⟩,
    ⟨"nal.disjunctionIntro", atomAtom, "nal:disjunctionIntro", .union⟩,
    ⟨"nal.implicationIntro", inheritanceNegation, "nal:implicationIntro", .deduction⟩,
    ⟨"nal.implicationElim", implicationAtom, "nal:implicationElim", .deduction⟩,
    ⟨"nal.equivalenceIntro", implicationImplication, "nal:equivalenceIntro", .intersection⟩,
    ⟨"nal.equivalenceElim", equivalenceAtom, "nal:equivalenceElim", .deduction⟩,
    ⟨"nal.negationIntro", implicationImplication, "nal:negationIntro", .deduction⟩,
    ⟨"nal.negationElim", negationNegation, "nal:negationElim", .union⟩,
    ⟨"nal.destruct", conjunctionAtom, "nal:destruct", .deduction⟩,
    ⟨"nal.decompose", conjunctionConjunction, "nal:decompose", .deduction⟩,
    ⟨"nal.analogy", inheritanceSimilarity, "nal:analogy", .analogy⟩,
    ⟨"nal.comparison", inheritanceInheritance, "nal:comparison", .sameness⟩,
    ⟨"nal.instantiation", inheritanceSimilarity, "nal:instantiation", .deduction⟩,
    ⟨"nal.exemplification", inheritanceInheritance, "nal:exemplification", .exemplification⟩,
    ⟨"nal.higherOrderDeduction", implicationImplication, "nal:higherOrderDeduction", .deduction⟩,
    ⟨"nal.higherOrderAbduction", implicationImplication, "nal:higherOrderAbduction", .abduction⟩,
    ⟨"nal.higherOrderInduction", implicationImplication, "nal:higherOrderInduction", .induction⟩]

def nalExtendedRules : List RuleDef :=
  [⟨"nal.modusPonens", implicationAtom, "nal.extended:modusPonens", .deduction⟩,
    ⟨"nal.modusTollens", implicationNegation, "nal.extended:modusTollens", .contraposition⟩,
    ⟨"nal.disjunctiveSyllogism", disjunctionNegation,
      "nal.extended:disjunctiveSyllogism", .deduction⟩,
    ⟨"nal.conversion", inheritanceInheritance, "nal.extended:conversion", .conversion⟩,
    ⟨"nal.extended.analogy", inheritanceInheritance, "nal.extended:analogy", .analogy⟩,
    ⟨"nal.extended.comparison", inheritanceInheritance, "nal.extended:comparison", .resemblance⟩,
    ⟨"nal.contrapositionRule", implicationImplication,
      "nal.extended:contrapositionRule", .contraposition⟩,
    ⟨"nal.structuralInheritance", (some .conjunction, some .inheritance),
      "nal.extended:structuralInheritance", .deduction⟩,
    ⟨"nal.structuralReduction", inheritanceInheritance,
      "nal.extended:structuralReduction", .structuralReduction⟩,
    ⟨"nal.intersectionComposition", inheritanceInheritance,
      "nal.extended:intersectionComposition", .intersection⟩,
    ⟨"nal.unionComposition", inheritanceInheritance, "nal.extended:unionComposition", .union⟩,
    ⟨"nal.difference", inheritanceInheritance, "nal.extended:difference", .deduction⟩,
    ⟨"nal.implicationDeduction", implicationImplication,
      "nal.extended:implicationDeduction", .deduction⟩,
    ⟨"nal.equivalence", implicationImplication, "nal.extended:equivalence", .intersection⟩,
    ⟨"nal.variableIntroduction", inheritanceInheritance,
      "nal.extended:variableIntroduction", .deduction⟩,
    ⟨"nal.decomposition", conjunctionConjunction, "nal.extended:decomposition", .deduction⟩,
    ⟨"nal.variableDependency", inheritanceInheritance,
      "nal.extended:variableDependency", .deduction⟩,
    ⟨"nal.sameness", inheritanceInheritance, "nal.extended:sameness", .sameness⟩,
    ⟨"nal.revisionWeak", inheritanceInheritance, "nal.extended:revisionWeak", .revision⟩,
    ⟨"nal.extended.exemplification", inheritanceInheritance,
      "nal.extended:exemplification", .exemplification⟩,
    ⟨"nal.instanceConversion", inheritanceSetExt, "nal.extended:instanceConversion", .conversion⟩,
    ⟨"nal.propertyConversion", inheritanceSetInt, "nal.extended:propertyConversion", .conversion⟩,
    ⟨"nal.instanceDeduction", inheritanceSetExt, "nal.extended:instanceDeduction", .deduction⟩,
    ⟨"nal.propertyInduction", inheritanceSetInt, "nal.extended:propertyInduction", .induction⟩,
    ⟨"nal.sequenceIntroduction", inheritanceInheritance,
      "nal.extended:sequenceIntroduction", .deduction⟩,
    ⟨"nal.parallelIntroduction", inheritanceInheritance,
      "nal.extended:parallelIntroduction", .deduction⟩,
    ⟨"nal.predictiveImplication", sequenceInheritance,
      "nal.extended:predictiveImplication", .deduction⟩,
    ⟨"nal.temporalDeduction", predictiveSequence, "nal.extended:temporalDeduction", .deduction⟩,
    ⟨"nal.proceduralDecomposition", sequenceOperation,
      "nal.extended:proceduralDecomposition", .deduction⟩,
    ⟨"nal.proceduralChaining", operationOperation, "nal.extended:proceduralChaining", .deduction⟩,
    ⟨"nal.operationToPredictive", operationSequence,
      "nal.extended:operationToPredictive", .deduction⟩]

/-- The rules that are declared and not shipped. -/
def disabledRules : List String :=
  ["nal.sequenceIntroduction", "nal.parallelIntroduction", "nal.predictiveImplication",
    "nal.temporalDeduction", "nal.conversion", "nal.comparison", "nal.structuralReduction",
    "nal.difference", "nal.conjunctionIntro", "nal.intersectionComposition",
    "nal.unionComposition"]

/-- The shipped table. -/
def builtinDeclarations : List RuleDef :=
  (nalRules ++ nalExtendedRules).filter fun rule => decide (rule.id ∉ disabledRules)

/-! ### Bodies -/

/-- The bodies over the connectives, by name. -/
def ruleBodies (collator : Collator) : List (String × RuleFn) :=
  [("nal:intersection", intersection collator),
    ("nal:union", union collator),
    ("nal:disjunctionIntro", disjunctionIntro collator),
    ("nal:implicationIntro", implicationIntro collator),
    ("nal:implicationElim", implicationElim),
    ("nal:equivalenceIntro", equivalenceIntro collator),
    ("nal:equivalenceElim", equivalenceElim),
    ("nal:negationIntro", negationIntro collator),
    ("nal:negationElim", negationElim),
    ("nal:destruct", destruct),
    ("nal:decompose", decompose),
    ("nal:higherOrderDeduction", higherOrderDeduction collator),
    ("nal.extended:modusPonens", modusPonens),
    ("nal.extended:modusTollens", modusTollens collator),
    ("nal.extended:disjunctiveSyllogism", disjunctiveSyllogism),
    ("nal.extended:contrapositionRule", contrapositionRule collator),
    ("nal.extended:implicationDeduction", implicationDeduction collator),
    ("nal.extended:equivalence", equivalence collator),
    ("nal.extended:decomposition", decomposition)]

/-- The body a name stands for. -/
def bodyOf (collator : Collator) (name : String) : Option RuleFn :=
  (ruleBodies collator).lookup name

end Senars.Rules
