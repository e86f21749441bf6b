/-
This file is the normaliser of `reduce.ts`: the registry of term reducers, the
pass that offers a term to each of them in turn, the loop that repeats passes
until one changes nothing, and the recursion that normalises arguments first.

The reducers compare arguments by their structural key. The key is a parameter
here, so that the same definitions describe the code, which compares by
`termKey`, and the reading in which two terms are compared by being the same
term. The reducer list is a parameter of the recursion for the same reason.
-/

import Senars.Terms.Intern

namespace Senars.Terms

open Library

/-- One rewrite of the registry: when it fires, and what it makes of the term. -/
structure TermReducer where
  id : String
  applies : Term → Bool
  reduce : Term → Except TermError Term

/-! ### The facts the reducers ask for -/

section Facts

variable {Key : Type} [DecidableEq Key] (key : Term → Key)

/-- Whether any two of a term's arguments have one key. -/
def hasRepeatedArgs (term : Term) : Bool := !decide ((getArgs term).map key).Nodup

/-- Whether a term's arguments contain some `a` and its negation. -/
def hasNegatedPair (term : Term) : Bool :=
  (getArgs term).any fun arg =>
    match arg with
    | .compound .negation (operand :: _) => ((getArgs term).map key).contains (key operand)
    | _ => false

/-- The arguments with every repeat dropped. -/
def distinct (args : List Term) : List Term := uniqueBy key args

end Facts

/-- The kinds whose nesting is meaningless. -/
def flattened (kind : OperatorKey) : Bool := naryOps kind

/-- The kinds that may drop a repeat. -/
def deduped (kind : OperatorKey) : Bool := naryOps kind && commutativeOps kind

/-- The two constants the Boolean laws are about. -/
inductive BoolSymbol where
  | TRUE | FALSE
  deriving DecidableEq

def BoolSymbol.text : BoolSymbol → String
  | .TRUE => "TRUE"
  | .FALSE => "FALSE"

def BoolSymbol.other : BoolSymbol → BoolSymbol
  | .TRUE => .FALSE
  | .FALSE => .TRUE

/-- Whether a term is the atom of a constant. -/
def BoolSymbol.isAtomOf (symbol : BoolSymbol) (term : Term) : Bool :=
  isBoolAtom term && term == .atom symbol.text

/-! ### The registry -/

section Registry

variable {Key : Type} [DecidableEq Key] (key : Term → Key) (collator : Collator)

def conjunctionContradiction : TermReducer where
  id := "conjunction-contradiction"
  applies term := term.kind? == some .conjunction && hasNegatedPair key term
  reduce _ := atomOf "FALSE"

def disjunctionTautology : TermReducer where
  id := "disjunction-tautology"
  applies term := term.kind? == some .disjunction && hasNegatedPair key term
  reduce _ := atomOf "TRUE"

/-- The arguments of a flattened term: one of the term's own kind gives its arguments. -/
def spliced (kind : OperatorKey) (args : List Term) : List Term :=
  args.flatMap fun arg => if arg.kind? = some kind then getArgs arg else [arg]

def flattenNested : TermReducer where
  id := "flatten-nested"
  applies
    | .compound kind args => flattened kind && args.any fun arg => arg.kind? == some kind
    | .atom _ => false
  reduce
    | .compound kind args => compoundOf collator kind (spliced kind args)
    | .atom _ => .error .notATerm

def dedupeArgs : TermReducer where
  id := "dedupe-args"
  applies
    | .compound kind args => deduped kind && hasRepeatedArgs key (.compound kind args)
    | .atom _ => false
  reduce
    | .compound kind args => compoundOf collator kind (distinct key args)
    | .atom _ => .error .notATerm

def doubleNegation : TermReducer where
  id := "double-negation"
  applies
    | .compound .negation (.compound .negation _ :: _) => true
    | _ => false
  reduce
    | .compound .negation (.compound .negation (operand :: _) :: _) => .ok operand
    | _ => .error .notATerm

/-- `--TRUE` and `--FALSE`, each the other constant. -/
def negateBool (symbol : BoolSymbol) : TermReducer where
  id := match symbol with
    | .TRUE => "negate-true"
    | .FALSE => "negate-false"
  applies
    | .compound .negation (arg :: _) => arg == .atom symbol.text
    | _ => false
  reduce _ := atomOf symbol.other.text

/-- A constant among the arguments of an n-ary kind: an absorber replaces the term, an
identity is dropped. -/
def boolAbsorb (id : String) (kind : OperatorKey) (symbol : BoolSymbol) (absorbing : Bool) :
    TermReducer where
  id := id
  applies term := term.kind? == some kind && (getArgs term).any symbol.isAtomOf
  reduce term :=
    if absorbing then atomOf symbol.text
    else compoundOf collator kind ((getArgs term).filter fun arg => !symbol.isAtomOf arg)

def negateTrue : TermReducer := negateBool .TRUE

def negateFalse : TermReducer := negateBool .FALSE

def conjunctionTrue : TermReducer :=
  boolAbsorb collator "conjunction-true" .conjunction .TRUE false

def conjunctionFalse : TermReducer :=
  boolAbsorb collator "conjunction-false" .conjunction .FALSE true

def disjunctionTrue : TermReducer :=
  boolAbsorb collator "disjunction-true" .disjunction .TRUE true

def disjunctionFalse : TermReducer :=
  boolAbsorb collator "disjunction-false" .disjunction .FALSE false

/-- `TERM_REDUCERS`, in the declared order. -/
def termReducers : List TermReducer :=
  [flattenNested collator, dedupeArgs key collator, conjunctionContradiction key,
    disjunctionTautology key, doubleNegation, negateTrue, negateFalse, conjunctionTrue collator,
    conjunctionFalse collator, disjunctionTrue collator, disjunctionFalse collator]

end Registry

/-! ### The pass loop -/

/-- The ceiling on passes. -/
def maxPasses : Nat := 8

/-- Offer a term to one reducer. -/
def offer (term : Term) (reducer : TermReducer) : Except TermError Term :=
  if reducer.applies term then reducer.reduce term else .ok term

/-- Offer a term to every reducer in turn. -/
def pass (reducers : List TermReducer) (term : Term) : Except TermError Term :=
  reducers.foldlM offer term

/-- Repeat passes until one changes nothing. `original` is the term named by the error. -/
def settle (reducers : List TermReducer) (original : Term) :
    Nat → Term → Except TermError Term
  | 0, _ => .error (.noFixedPoint maxPasses original)
  | passes + 1, current => do
    let next ← pass reducers current
    if next = current then .ok current else settle reducers original passes next

mutual

/-- Normalise every argument, rebuild, and settle. -/
def canonicalizeRecursive (reducers : List TermReducer) (collator : Collator) :
    Term → Except TermError Term
  | .atom symbol => .ok (.atom symbol)
  | .compound kind args => do
    let canonicalArgs ← canonicalizeArgs reducers collator args
    let current ← compoundOf collator kind canonicalArgs
    settle reducers (.compound kind args) maxPasses current

def canonicalizeArgs (reducers : List TermReducer) (collator : Collator) :
    List Term → Except TermError (List Term)
  | [] => .ok []
  | arg :: rest => do
    let canonicalArg ← canonicalizeRecursive reducers collator arg
    let canonicalRest ← canonicalizeArgs reducers collator rest
    .ok (canonicalArg :: canonicalRest)

end

section Normaliser

variable {Key : Type} [DecidableEq Key] (key : Term → Key) (collator : Collator)

/-- The canonical form of a term. -/
def canonicalTerm (term : Term) : Except TermError Term :=
  canonicalizeRecursive (termReducers key collator) collator term

/-- `TermBuilder.compound`: build the raw compound, then normalise it. -/
def createCompound (kind : OperatorKey) (args : List Term) : Except TermError Term := do
  let raw ← compoundOf collator kind args
  canonicalTerm key collator raw

end Normaliser

end Senars.Terms
