/-
This file is the data model of a Narsese term: the operator table, the terms
themselves, the readers every other module uses on them, and the accessors rules
read them with: the two arguments of a statement, the argument of a negation or a
set, equality, and depth.

A term is an atom, which is nothing but its symbol, or a compound, which is a
kind of the operator table and an argument list. No arity is enforced here: the
source's `Term` admits an argument list of any length, and only the factory
checks some of the kinds. Whether an atom is a variable is read off the symbol,
as the factory does when it stamps `isVariable`.
-/

import Senars.Library.Lists

namespace Senars.Terms

open Library

/-! ### The operator table -/

/-- The compound kinds, which are the keys of the source's `OPERATORS`. -/
inductive OperatorKey where
  | inheritance | similarity | conjunction | disjunction | negation | implication
  | equivalence | setExt | setInt | sequence | parallel | predictive | retrospective
  | operation | product
  deriving DecidableEq, Repr

/-- One row of the operator table. -/
structure Operator where
  symbol : String
  arity : Nat
  commutative : Bool
  nary : Bool

/-- The operator table. -/
def operators : OperatorKey → Operator
  | .inheritance => { symbol := "-->", arity := 2, commutative := false, nary := false }
  | .similarity => { symbol := "<->", arity := 2, commutative := true, nary := false }
  | .conjunction => { symbol := "&", arity := 0, commutative := true, nary := true }
  | .disjunction => { symbol := "|", arity := 0, commutative := true, nary := true }
  | .negation => { symbol := "--", arity := 1, commutative := false, nary := false }
  | .implication => { symbol := "==>", arity := 2, commutative := false, nary := false }
  | .equivalence => { symbol := "<=>", arity := 2, commutative := true, nary := false }
  | .setExt => { symbol := "\x7b", arity := 1, commutative := false, nary := false }
  | .setInt => { symbol := "[", arity := 1, commutative := false, nary := false }
  | .sequence => { symbol := "&/", arity := 2, commutative := false, nary := false }
  | .parallel => { symbol := "&|", arity := 0, commutative := true, nary := true }
  | .predictive => { symbol := "=/>", arity := 2, commutative := false, nary := false }
  | .retrospective => { symbol := "=|", arity := 2, commutative := false, nary := false }
  | .operation => { symbol := "^", arity := 2, commutative := false, nary := false }
  | .product => { symbol := ",", arity := 0, commutative := false, nary := true }

/-- A kind as the source spells it. -/
def OperatorKey.name : OperatorKey → String
  | .inheritance => "inheritance"
  | .similarity => "similarity"
  | .conjunction => "conjunction"
  | .disjunction => "disjunction"
  | .negation => "negation"
  | .implication => "implication"
  | .equivalence => "equivalence"
  | .setExt => "setExt"
  | .setInt => "setInt"
  | .sequence => "sequence"
  | .parallel => "parallel"
  | .predictive => "predictive"
  | .retrospective => "retrospective"
  | .operation => "operation"
  | .product => "product"

theorem OperatorKey.name_injective {first second : OperatorKey}
    (same : first.name = second.name) : first = second := by
  cases first <;> cases second <;> first | rfl | exact absurd same (by decide)

/-- The kinds of `COMMUTATIVE_OPS`. -/
def commutativeOps (kind : OperatorKey) : Bool := (operators kind).commutative

/-- The kinds of `NARY_OPS`. -/
def naryOps (kind : OperatorKey) : Bool := (operators kind).nary

/-! ### Terms -/

/-- A Narsese term. -/
inductive Term where
  | atom (symbol : String)
  | compound (kind : OperatorKey) (args : List Term)
  deriving Repr

mutual

/-- Structural equality of two terms is decidable. -/
def Term.decEq : (first second : Term) → Decidable (first = second)
  | .atom first, .atom second =>
    if same : first = second then isTrue (congrArg Term.atom same)
    else isFalse fun equal => same (Term.atom.inj equal)
  | .compound firstKind firstArgs, .compound secondKind secondArgs =>
    if sameKind : firstKind = secondKind then
      match Term.decEqArgs firstArgs secondArgs with
      | isTrue sameArgs => isTrue (congr (congrArg Term.compound sameKind) sameArgs)
      | isFalse different => isFalse fun equal => different (Term.compound.inj equal).2
    else isFalse fun equal => sameKind (Term.compound.inj equal).1
  | .atom _, .compound _ _ => isFalse nofun
  | .compound _ _, .atom _ => isFalse nofun

/-- Structural equality of two argument lists is decidable. -/
def Term.decEqArgs : (first second : List Term) → Decidable (first = second)
  | [], [] => isTrue rfl
  | [], _ :: _ => isFalse nofun
  | _ :: _, [] => isFalse nofun
  | first :: firsts, second :: seconds =>
    match Term.decEq first second, Term.decEqArgs firsts seconds with
    | isTrue same, isTrue rest => isTrue (congr (congrArg List.cons same) rest)
    | isFalse different, _ => isFalse fun equal => different (List.cons.inj equal).1
    | _, isFalse different => isFalse fun equal => different (List.cons.inj equal).2

end

instance : DecidableEq Term := Term.decEq

instance : Inhabited Term := ⟨.atom ""⟩

@[elab_as_elim, induction_eliminator]
theorem Term.induction {motive : Term → Prop} (atom : ∀ symbol, motive (.atom symbol))
    (compound : ∀ kind args, (∀ arg ∈ args, motive arg) → motive (.compound kind args)) :
    ∀ term, motive term
  | .atom symbol => atom symbol
  | .compound kind args => compound kind args fun arg _ => Term.induction atom compound arg

/-- The kind of a compound, `none` for an atom, whose kind the source writes `'atom'`. -/
def Term.kind? : Term → Option OperatorKey
  | .atom _ => none
  | .compound kind _ => some kind

/-- A term's arguments. An atom has none. -/
def getArgs : Term → List Term
  | .atom _ => []
  | .compound _ args => args

@[simp] theorem getArgs_atom (symbol : String) : getArgs (.atom symbol) = [] := rfl

@[simp] theorem getArgs_compound (kind : OperatorKey) (args : List Term) :
    getArgs (.compound kind args) = args := rfl

@[simp] theorem kind?_atom (symbol : String) : (Term.atom symbol).kind? = none := rfl

@[simp] theorem kind?_compound (kind : OperatorKey) (args : List Term) :
    (Term.compound kind args).kind? = some kind := rfl

/-- Whether a symbol begins with a variable sigil. -/
def isVariableSymbol (symbol : String) : Bool :=
  match symbol.toList with
  | [] => false
  | first :: _ => first == '?' || first == '$' || first == '#' || first == '*' || first == '%'

/-! ### The walk over a term and its structural key -/

mutual

/-- Every node of a term in pre-order, which is the order `walkTerms` visits them in. -/
def visited : Term → List Term
  | .atom symbol => [.atom symbol]
  | .compound kind args => .compound kind args :: visitedArgs args

def visitedArgs : List Term → List Term
  | [] => []
  | arg :: rest => visited arg ++ visitedArgs rest

end

theorem visitedArgs_eq (args : List Term) : visitedArgs args = args.flatMap visited := by
  induction args with
  | nil => rfl
  | cons arg rest ih =>
    rw [visitedArgs, ih, List.flatMap_cons]

mutual

/-- The structural key of a term, by which the intern cache and every term-keyed collection
identify it. -/
def termKey : Term → String
  | .atom symbol => "atom:" ++ symbol
  | .compound kind args => kind.name ++ ":" ++ join "," (termKeys args)

def termKeys : List Term → List String
  | [] => []
  | arg :: rest => termKey arg :: termKeys rest

end

theorem termKeys_eq (args : List Term) : termKeys args = args.map termKey := by
  induction args with
  | nil => rfl
  | cons arg rest ih =>
    rw [termKeys, ih, List.map_cons]

/-- Whether a term with the target's key occurs anywhere in a term, itself included. -/
def containsSubterm (term target : Term) : Bool :=
  ((visited term).map termKey).contains (termKey target)

/-! ### Accessors -/

/-- The two arguments of a term of a kind. -/
def binaryOf (kind : OperatorKey) (term : Term) : Option (Term × Term) :=
  if term.kind? = some kind then
    match getArgs term with
    | first :: second :: _ => some (first, second)
    | _ => none
  else none

/-- The first argument of a term of a kind. -/
def unaryOf (kind : OperatorKey) (term : Term) : Option Term :=
  if term.kind? = some kind then (getArgs term).head? else none

/-- The two arguments of an inheritance or a similarity. -/
def rolePair (term : Term) : Option (Term × Term) :=
  (binaryOf .inheritance term).or (binaryOf .similarity term)

def getSubject (term : Term) : Option Term := (rolePair term).map Prod.fst

def getPredicate (term : Term) : Option Term := (rolePair term).map Prod.snd

/-- Equality of kinds, symbols and arguments all the way down. -/
def termsEqual (first second : Term) : Bool := first = second

def isOperation (term : Term) : Bool := term.kind? = some .operation

mutual

/-- The deepest nesting below the root. -/
def termDepth : Term → Nat
  | .atom _ => 0
  | .compound _ args => depthBelow args

/-- How deep a term is whose arguments these are. -/
def depthBelow : List Term → Nat
  | [] => 0
  | arg :: rest => max (termDepth arg + 1) (depthBelow rest)

end

/-- Whether a variable occurs in a term. -/
def hasVariable (term : Term) : Bool :=
  (visited term).any fun node =>
    match node with
    | .atom symbol => isVariableSymbol symbol
    | .compound _ _ => false

/-- A statement of something about itself. -/
def isTautology (term : Term) : Bool :=
  match rolePair term with
  | none => false
  | some (subject, predicate) => termsEqual subject predicate

/-- Whether what a rule concluded may be kept. -/
def validateRuleOutput (term : Term) : Bool :=
  !isTautology term &&
    (match term with
      | .atom _ => true
      | .compound kind args =>
        args.isEmpty ||
          (match kind with
            | .inheritance | .similarity | .implication | .equivalence => args.length == 2
            | .negation | .setExt | .setInt => args.length == 1
            | _ => true)) &&
    !(getSubject term).any isOperation && !(getPredicate term).any isOperation

/-- A term without variables. -/
def VariableFree (term : Term) : Prop := hasVariable term = false

instance (term : Term) : Decidable (VariableFree term) :=
  inferInstanceAs (Decidable (hasVariable term = false))

theorem variableFree_atom {symbol} :
    VariableFree (.atom symbol) ↔ isVariableSymbol symbol = false := by
  simp [VariableFree, hasVariable, visited]

variable {kind : OperatorKey} {first : Term}

theorem variableFree_compound {args} :
    VariableFree (.compound kind args) ↔ ∀ arg ∈ args, VariableFree arg := by
  simp [VariableFree, hasVariable, visited, visitedArgs_eq, List.any_flatMap]

theorem termDepth_lt {args arg} (member : arg ∈ args) :
    termDepth arg < termDepth (.compound kind args) := by
  rw [termDepth]
  induction args with
  | nil => exact absurd member List.not_mem_nil
  | cons head rest ih =>
    rcases List.mem_cons.mp member with rfl | later
    · exact Nat.lt_of_lt_of_le (Nat.lt_succ_self _) (Nat.le_max_left _ _)
    · exact Nat.lt_of_lt_of_le (ih later) (Nat.le_max_right _ _)

theorem binaryOf_eq_some {term second} :
    binaryOf kind term = some (first, second) ↔
      ∃ rest, term = .compound kind (first :: second :: rest) := by
  cases term with
  | atom symbol => simp [binaryOf]
  | compound other args =>
    rcases args with _ | ⟨one, _ | ⟨two, rest⟩⟩
    · simp [binaryOf]
    · simp [binaryOf]
    · by_cases same : other = kind
      · simp [binaryOf, same]
      · simp [binaryOf, same]

theorem unaryOf_eq_some {term} :
    unaryOf kind term = some first ↔ ∃ rest, term = .compound kind (first :: rest) := by
  cases term with
  | atom symbol => simp [unaryOf]
  | compound other args =>
    rcases args with _ | ⟨one, rest⟩
    · simp [unaryOf]
    · by_cases same : other = kind
      · simp [unaryOf, same]
      · simp [unaryOf, same]

@[simp] theorem termsEqual_iff {second} :
    termsEqual first second = true ↔ first = second := decide_eq_true_iff

end Senars.Terms
