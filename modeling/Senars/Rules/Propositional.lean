/-
This file is the bodies of the rules over conjunction, disjunction, negation,
implication and equivalence, and the builders they are written in.

A body takes its two premises and concludes a term or nothing; it fails where the
term factory does. Where the source exports one body under a second name, so does
this file.
-/

import Senars.Terms.Reduce

namespace Senars.Rules

open Library Terms

/-- A rule body, over the pair of its premises. -/
abbrev RuleFn := Term × Term → Except TermError (Option Term)

/-! ### The builders -/

section Builders

variable (collator : Collator)

/-- A conclusion the term factory builds. -/
def concluding (kind : OperatorKey) (args : List Term) : Except TermError (Option Term) :=
  (createCompound termKey collator kind args).map some

/-- A rule over two premises of declared kinds, handed their role pairs. -/
def buildPairRule (leftKind rightKind : OperatorKey)
    (derive : Term × Term → Term × Term → Except TermError (Option Term)) : RuleFn
  | (t1, t2) =>
    match binaryOf leftKind t1, binaryOf rightKind t2 with
    | some left, some right => derive left right
    | _, _ => .ok none

def buildImplicationPairRule
    (derive : Term × Term → Term × Term → Except TermError (Option Term)) : RuleFn :=
  buildPairRule .implication .implication derive

/-- Intersect, or if `unique` unite, the argument lists of two terms of a kind. -/
def foldNary (kind : OperatorKey) (unique : Bool) : RuleFn
  | (t1, t2) =>
    if t1.kind? ≠ some kind ∨ t2.kind? ≠ some kind then .ok none
    else
      let a1 := getArgs t1
      let a2 := getArgs t2
      let args :=
        if unique then uniqueBy termKey (a1 ++ a2)
        else a1.filter fun arg => decide (termKey arg ∈ a2.map termKey)
      if 0 < args.length then
        if kind = .conjunction then concluding collator .conjunction args
        else concluding collator .disjunction args
      else .ok none

end Builders

/-! ### Propositional rules -/

section Bodies

variable (collator : Collator)

def disjunctionIntro : RuleFn
  | (.atom first, .atom second) => concluding collator .disjunction [.atom first, .atom second]
  | _ => .ok none

/-- `S-->P, --P ⊢ S==>P` -/
def implicationIntro : RuleFn
  | (inh, neg) =>
    match binaryOf .inheritance inh with
    | none => .ok none
    | some ends =>
      if neg.kind? = some .negation then concluding collator .implication [ends.1, ends.2]
      else .ok none

/-- `A==>B, A ⊢ B` -/
def implicationElim : RuleFn
  | (imp, atm) =>
    match binaryOf .implication imp with
    | none => .ok none
    | some ends =>
      if atm.kind? = none ∧ termsEqual ends.1 atm then .ok (some ends.2) else .ok none

/-- `A==>B, A==>B ⊢ A<=>B` under either argument order. -/
def equivalenceIntro : RuleFn :=
  buildPairRule .implication .implication fun left right =>
    if (termsEqual left.1 right.1 && termsEqual left.2 right.2) ||
        (termsEqual left.1 right.2 && termsEqual left.2 right.1) then
      concluding collator .equivalence [left.1, left.2]
    else .ok none

/-- `A<=>B, A ⊢ B` and its symmetric arm. -/
def equivalenceElim : RuleFn
  | (eq, atm) =>
    match binaryOf .equivalence eq with
    | none => .ok none
    | some ends =>
      if atm.kind? = none ∧ (termsEqual ends.1 atm || termsEqual ends.2 atm) then
        .ok (some ends.2)
      else .ok none

def isTrueFalse (c1 c2 : Term) : Bool := c1 = .atom "TRUE" && c2 = .atom "FALSE"

/-- `A==>A. A==>(--A.) ⊢ --A` — an implication whose ends contradict. -/
def negationIntro : RuleFn :=
  buildPairRule .implication .implication fun left right =>
    if termsEqual left.1 right.2 && isTrueFalse left.2 right.2 then
      concluding collator .negation [left.1]
    else .ok none

/-- `--A, --A ⊢ FALSE` -/
def negationElim : RuleFn
  | (n1, n2) =>
    match unaryOf .negation n1, unaryOf .negation n2 with
    | some first, some second =>
      if termsEqual first second then (atomOf "FALSE").map some else .ok none
    | _, _ => .ok none

/-- `(A & B & ...), A ⊢ A` — picking a conjunct out as a term of its own. -/
def destruct : RuleFn
  | (conj, atm) =>
    if conj.kind? = some .conjunction ∧ atm.kind? = none then
      .ok ((getArgs conj).find? fun arg => termsEqual arg atm)
    else .ok none

/-! ### Logic rules -/

def intersection : RuleFn := foldNary collator .conjunction false

def union : RuleFn := foldNary collator .disjunction true

/-- `(A & ...), (B & ...) ⊢ A` — the conjunct both sides share. -/
def decompose : RuleFn
  | (c1, c2) =>
    if c1.kind? = some .conjunction ∧ c2.kind? = some .conjunction then
      .ok ((getArgs c1).find? fun a1 => (getArgs c2).any fun a2 => termsEqual a1 a2)
    else .ok none

/-- `A==>B, B==>C ⊢ A==>C` -/
def higherOrderDeduction : RuleFn :=
  buildImplicationPairRule fun left right =>
    if termsEqual left.2 right.1 then concluding collator .implication [left.1, right.2]
    else .ok none

/-! ### Extended rules -/

def modusPonens : RuleFn := implicationElim

/-- `A==>B, --B ⊢ --A` -/
def modusTollens : RuleFn
  | (imp, negConsequent) =>
    match binaryOf .implication imp, unaryOf .negation negConsequent with
    | some pair, some consequent =>
      if termsEqual pair.2 consequent then concluding collator .negation [pair.1] else .ok none
    | _, _ => .ok none

/-- `A|B, --A ⊢ B` -/
def disjunctiveSyllogism : RuleFn
  | (.compound .disjunction [left, right], negTerm) =>
    match unaryOf .negation negTerm with
    | none => .ok none
    | some negated =>
      if termsEqual left negated then .ok (some right)
      else if termsEqual right negated then .ok (some left)
      else .ok none
  | _ => .ok none

def equivalence : RuleFn := equivalenceIntro collator

def decomposition : RuleFn
  | (conj, _) =>
    if conj.kind? = some .conjunction ∧ 2 ≤ (getArgs conj).length then .ok (getArgs conj).head?
    else .ok none

def contrapositionRule : RuleFn
  | (imp, _) =>
    match binaryOf .implication imp with
    | none => .ok none
    | some pair => do
      let antecedent ← createCompound termKey collator .negation [pair.2]
      let consequent ← createCompound termKey collator .negation [pair.1]
      concluding collator .implication [antecedent, consequent]

/-- `A==>B, B==>C ⊢ A==>C` — chaining two implications at their shared endpoint. -/
def implicationDeduction : RuleFn :=
  buildImplicationPairRule fun left right =>
    if termsEqual left.2 right.1 then concluding collator .implication [left.1, right.2]
    else .ok none

end Bodies

end Senars.Rules
