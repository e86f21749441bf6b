/-
This file is the raw term constructor of `intern.ts`: the symbol checks of an
atom, the canonical order, and the arity checks, folds and sort of a compound.

The intern cache behind the constructor is a table from structural keys to
terms that were built by it, so it changes which object stands for a term and,
as long as two terms never share a key, not which term that is. The model
returns the term a miss builds.
-/

import Senars.Library.StableSort
import Senars.Terms.Serialize

namespace Senars.Terms

open Library

/-! ### Errors -/

/-- What the term layer throws. -/
inductive TermError where
  | colonInSymbol
  | reservedCharacter (badChar : Char)
  | negationArity (got : Nat)
  | sequenceArity (got : Nat)
  | operationArity (got : Nat)
  | noFixedPoint (passes : Nat) (term : Term)
  /-- A term was read off `undefined`. -/
  | notATerm
  deriving DecidableEq

/-- The text of an error. -/
def TermError.message : TermError → String
  | .colonInSymbol =>
    "Atomic term symbol cannot contain ':' (Narsese compact inheritance shorthand). " ++
      "Use '_' instead, or use the parser for namespaced terms like 'ns:term'."
  | .reservedCharacter badChar =>
    "Atomic term symbol cannot contain '" ++ badChar.toString ++
      "' (reserved in Narsese grammar). Use '_' instead."
  | .negationArity got => "Negation requires exactly 1 argument, got " ++ toString got
  | .sequenceArity got => "Sequence requires exactly 2 arguments, got " ++ toString got
  | .operationArity got => "Operation requires exactly 2 arguments, got " ++ toString got
  | .noFixedPoint passes term =>
    "canonicalTerm did not reach a fixed point in " ++ toString passes ++ " passes: " ++
      serializeTerm term
  | .notATerm => "Invalid value used as weak map key"

/-! ### Atoms -/

/-- The characters `INVALID_ATOM_CHARS_REGEX` leaves alone. -/
def isAtomChar (char : Char) : Bool :=
  ('A' ≤ char && char ≤ 'Z') || ('a' ≤ char && char ≤ 'z') || ('0' ≤ char && char ≤ '9') ||
    char == '_' || char == '^'

/-- Whether a symbol begins and ends with a double quote. One quote alone does both. -/
def isQuotedAtom (symbol : String) : Bool :=
  symbol.toList.head? == some '"' && symbol.toList.getLast? == some '"'

/-- Build an atom, or refuse its symbol. -/
def createAtom (symbol : String) : Except TermError Term :=
  if symbol.toList.contains ':' then .error .colonInSymbol
  else if isVariableSymbol symbol || isQuotedAtom symbol then .ok (.atom symbol)
  else
    match symbol.toList.find? fun char => !isAtomChar char with
    | some badChar => .error (.reservedCharacter badChar)
    | none => .ok (.atom symbol)

def trueAtom : Term := .atom "TRUE"

def falseAtom : Term := .atom "FALSE"

def nullAtom : Term := .atom "NULL"

/-- The atom of a symbol: the three constants are built once, every other symbol is checked. -/
def atomOf (symbol : String) : Except TermError Term :=
  if symbol = "TRUE" then .ok trueAtom
  else if symbol = "FALSE" then .ok falseAtom
  else if symbol = "NULL" then .ok nullAtom
  else createAtom symbol

/-- Whether a term is one of the three constants. -/
def isBoolAtom (term : Term) : Bool :=
  term == trueAtom || term == falseAtom || term == nullAtom

variable {term : Term} {kind : OperatorKey} {args : List Term}

theorem atomOf_eq {symbol} (built : atomOf symbol = .ok term) : term = .atom symbol := by
  unfold atomOf at built
  split at built
  · rename_i same
    rw [same]
    exact (Except.ok.inj built).symm
  split at built
  · rename_i same
    rw [same]
    exact (Except.ok.inj built).symm
  split at built
  · rename_i same
    rw [same]
    exact (Except.ok.inj built).symm
  unfold createAtom at built
  split at built
  · cases built
  split at built
  · exact (Except.ok.inj built).symm
  split at built
  · cases built
  · exact (Except.ok.inj built).symm

theorem atomOf_colon {symbol} (built : atomOf symbol = .ok term) : ':' ∉ symbol.toList := by
  by_cases constant : symbol = "TRUE" ∨ symbol = "FALSE" ∨ symbol = "NULL"
  · rcases constant with rfl | rfl | rfl <;> decide
  · simp only [not_or] at constant
    rw [atomOf, if_neg constant.1, if_neg constant.2.1, if_neg constant.2.2, createAtom] at built
    intro colon
    rw [if_pos (List.contains_iff_mem.mpr colon)] at built
    cases built

/-! ### The canonical order -/

/-- A collation of symbols. Different symbols may collate as equal, as they may for
`Intl.Collator`. -/
abbrev Collator : Type := Comparison String

/-- The collation of symbols by code points. -/
def codePointCollator : Collator where
  le first second := decide (first ≤ second)
  total first second := by
    simpa only [decide_eq_true_eq] using (Std.le_total : first ≤ second ∨ second ≤ first)
  trans first second third forward onward := by
    rw [decide_eq_true_eq] at *
    exact String.le_trans forward onward

/-- What the canonical order reads off a term: an atom's symbol, a compound's kind. -/
def canonicalKeyOf : Term → String
  | .atom symbol => symbol
  | .compound kind _ => kind.name

/-- The comparison the arguments of a commutative kind are sorted by. -/
def canonicalOrder (collator : Collator) : Comparison Term :=
  collator.comap canonicalKeyOf

/-! ### Compounds -/

/-- The error a wrong number of arguments raises, for the kinds that check it. -/
def arityError (kind : OperatorKey) (got : Nat) : Option TermError :=
  match kind with
  | .negation => if got = 1 then none else some (.negationArity got)
  | .sequence => if got = 2 then none else some (.sequenceArity got)
  | .operation => if got = 2 then none else some (.operationArity got)
  | _ => none

/-- The term a kind folds to instead of being built, for an argument list that folds. -/
def folded : OperatorKey → List Term → Option Term
  | .disjunction, [] => some falseAtom
  | .disjunction, [arg] => some arg
  | .conjunction, [arg] => some arg
  | .parallel, [arg] => some arg
  | _, _ => none

/-- An operation's second argument is a product. A bare one is wrapped in a product of its
own; no fold, check or sort of the constructor applies to that product. -/
def wrapOperationArgs : OperatorKey → List Term → List Term
  | .operation, [op, arg] =>
    if arg.kind? = some .product then [op, arg] else [op, .compound .product [arg]]
  | _, args => args

/-- The raw constructor: fold, check the arity, wrap, sort. -/
def compoundOf (collator : Collator) (kind : OperatorKey) (args : List Term) :
    Except TermError Term :=
  match folded kind args with
  | some term => .ok term
  | none =>
    match arityError kind args.length with
    | some error => .error error
    | none =>
      let valid := wrapOperationArgs kind args
      .ok (.compound kind
        (if commutativeOps kind then (canonicalOrder collator).toSorted valid else valid))

theorem compoundOf_of_folded (collator : Collator) (folds : folded kind args = some term) :
    compoundOf collator kind args = .ok term := by
  rw [compoundOf, folds]

theorem compoundOf_of_unfolded (collator : Collator) (plain : folded kind args = none)
    (arity : arityError kind args.length = none) :
    compoundOf collator kind args = .ok (.compound kind
      (if commutativeOps kind then (canonicalOrder collator).toSorted (wrapOperationArgs kind args)
        else wrapOperationArgs kind args)) := by
  rw [compoundOf, plain]
  simp only [arity]

theorem compoundOf_cases {collator} (built : compoundOf collator kind args = .ok term) :
    folded kind args = some term ∨
      folded kind args = none ∧ arityError kind args.length = none ∧
        term = .compound kind
          (if commutativeOps kind then
            (canonicalOrder collator).toSorted (wrapOperationArgs kind args)
          else wrapOperationArgs kind args) := by
  unfold compoundOf at built
  split at built
  · rename_i found folds
    exact Or.inl (folds.trans (congrArg some (Except.ok.inj built)))
  · rename_i plain
    split at built
    · cases built
    · rename_i arity
      exact Or.inr ⟨plain, arity, (Except.ok.inj built).symm⟩

end Senars.Terms
