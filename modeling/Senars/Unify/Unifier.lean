/-
This file is the structural unifier over an arbitrary node type: the walk that
binds variables, the application of a substitution, and the object that keeps a
memo between calls.

The depth caps of the source count upwards to `MAX_DEPTH`; here each recursion
counts the remaining depth down. `identical` is the source's `===` on nodes. Two
identical nodes are equal, and two equal nodes need not be identical: that is up
to the caller, so it comes with the arguments of a call. Application recurses
without a bound in the source, so it takes fuel here and answers nothing when the
fuel does not suffice.
-/

import Senars.Library.Text
import Senars.Unify.LruCache

namespace Senars.Unify

open Library

/-- How to read one term dialect. Rebuilding a node may fail. -/
structure UnifierDialect (Node Failure : Type) where
  variableName : Node → Option String
  key : Node → String
  equal : Node → Node → Bool
  sameHead : Node → Node → Bool
  children : Node → List Node
  rebuild : Node → List Node → Except Failure Node

abbrev Substitution (Node : Type) := OrderedMap String Node

structure UnifyOptions where
  occursCheck : Option Bool := none
  memoize : Option Bool := none
  memoCapacity : Option Nat := none
  deriving DecidableEq

/-- Depth cap for the occurs check, the dereferencing and the walk. -/
def maxDepth : Nat := 64

/-- The bindings of a walk, and those among them it added, in order. -/
structure Walk (Node : Type) where
  work : Substitution Node
  added : List (String × Node)

section Engine

variable {Node Failure : Type} (ast : UnifierDialect Node Failure)
  (identical : Node → Node → Bool)

/-! ### The walk -/

/-- Follow a variable's bindings to the term they resolve to. -/
def deref (work : Substitution Node) : Nat → Node → Node
  | 0, node => node
  | remaining + 1, node =>
    match ast.variableName node with
    | none => node
    | some name =>
      match work.get name with
      | none => node
      | some bound => deref work remaining bound

/-- Whether a variable occurs in a node, following existing bindings. -/
def occurs (variableName : String) (work : Substitution Node) : Nat → Node → Bool
  | 0, _ => false
  | remaining + 1, node =>
    match ast.variableName node with
    | some name =>
      if name = variableName then true
      else
        match work.get name with
        | none => false
        | some bound => occurs variableName work remaining bound
    | none => (ast.children node).any (occurs variableName work remaining)

/-- Bind a variable, unless the occurs check is on and finds it in the value. -/
def bind (variableName : String) (value : Node) (occursCheck : Bool) (walk : Walk Node) :
    Option (Walk Node) :=
  if occursCheck && occurs ast variableName walk.work maxDepth value then none
  else
    some
      { work := walk.work.set variableName value
        added := walk.added ++ [(variableName, value)] }

/-- Walk two lists of children in step, threading the bindings. -/
def pairwise (step : Node → Node → Walk Node → Option (Walk Node)) :
    List Node → List Node → Walk Node → Option (Walk Node)
  | left :: lefts, right :: rights, walk =>
    match step left right walk with
    | none => none
    | some next => pairwise step lefts rights next
  | _, _, walk => some walk

/-- Unify two nodes, adding bindings. -/
def descend (occursCheck : Bool) : Nat → Node → Node → Walk Node → Option (Walk Node)
  | 0, _, _, _ => none
  | remaining + 1, a, b, walk =>
    let left := deref ast walk.work maxDepth a
    let right := deref ast walk.work maxDepth b
    if identical left right then some walk
    else
      match ast.variableName left, ast.variableName right with
      | some name, other =>
        if other = some name then some walk else bind ast name right occursCheck walk
      | none, some other => bind ast other left occursCheck walk
      | none, none =>
        if !ast.sameHead left right then none
        else
          let leftKids := ast.children left
          let rightKids := ast.children right
          if leftKids.length ≠ rightKids.length then none
          else if leftKids.length = 0 then if ast.equal left right then some walk else none
          else pairwise (descend occursCheck remaining) leftKids rightKids walk

/-- A walk over two nodes from a substitution, without a memo. -/
def solve (a b : Node) (subst : Substitution Node) (occursCheck : Bool) : Option (Walk Node) :=
  descend ast identical occursCheck maxDepth a b { work := subst, added := [] }

/-! ### Application -/

/-- Apply to every child in turn, until one fails. -/
def applyAll (step : Node → Option (Except Failure Node)) :
    List Node → Option (Except Failure (List Node))
  | [] => some (.ok [])
  | kid :: rest =>
    match step kid with
    | none => none
    | some (.error error) => some (.error error)
    | some (.ok next) =>
      match applyAll step rest with
      | none => none
      | some (.error error) => some (.error error)
      | some (.ok others) => some (.ok (next :: others))

/-- Substitute through a term. A child that comes back equal is read as unchanged. -/
def apply [DecidableEq Node] (subst : Substitution Node) :
    Nat → Node → Option (Except Failure Node)
  | 0, _ => none
  | fuel + 1, term =>
    match ast.variableName term with
    | some name =>
      match subst.get name with
      | none => some (.ok term)
      | some bound =>
        match apply subst fuel bound with
        | some (.ok next) => some (.ok (if ast.equal next term then term else next))
        | other => other
    | none =>
      let kids := ast.children term
      if kids.length = 0 then some (.ok term)
      else
        match applyAll (apply subst fuel) kids with
        | none => none
        | some (.error error) => some (.error error)
        | some (.ok applied) =>
          some (if applied = kids then .ok term else ast.rebuild term applied)

/-! ### The unifier object -/

/-- A memo entry is the bindings a call added, or nothing for a failure. -/
abbrev Delta (Node : Type) := Option (List (String × Node))

/-- Rebuild a memoised result on the caller's map. -/
def replay (subst : Substitution Node) (added : List (String × Node)) : Substitution Node :=
  subst.setAll added

/-- The memo key: both terms and every bound value. -/
def memoKey (a b : Node) (subst : Substitution Node) (occursCheck : Bool) : String :=
  let terms := (if occursCheck then "1" else "0") ++ "|" ++ ast.key a ++ "|" ++ ast.key b
  if subst.size = 0 then terms
  else
    let bindings := subst.entries.map fun binding => binding.1 ++ "=" ++ ast.key binding.2
    terms ++ "|" ++ join ";" (unitOrder.toSorted bindings)

/-- A unifier: whether it memoises by default, and its memo if it does. -/
structure Unifier (Node : Type) where
  memoize : Bool
  memo : Option (LruCache (Delta Node))

/-- `new Unifier(ast, options)`. -/
def Unifier.new (options : UnifyOptions) : Unifier Node where
  memoize := options.memoize.getD true
  memo :=
    if options.memoize.getD true then some (.new (options.memoCapacity.getD 1000)) else none

/-- The arguments of one call, and which of their nodes are identical as objects. -/
structure Call (Node : Type) where
  a : Node
  b : Node
  subst : Substitution Node := .empty
  options : UnifyOptions := {}
  identical : Node → Node → Bool := fun _ _ => false

/-- Whether a call checks for occurrences. -/
def Call.occursCheck (call : Call Node) : Bool := call.options.occursCheck.getD true

/-- The memo a call uses, if it uses one. -/
def Unifier.memoFor (unifier : Unifier Node) (call : Call Node) : Option (LruCache (Delta Node)) :=
  if call.options.memoize.getD unifier.memoize then unifier.memo else none

/-- A call's memo key. -/
def Call.memoKey (call : Call Node) : String :=
  Unify.memoKey ast call.a call.b call.subst call.occursCheck

/-- A call's walk, without a memo. -/
def Call.solve (call : Call Node) : Option (Walk Node) :=
  Unify.solve ast call.identical call.a call.b call.subst call.occursCheck

/-- One call: its answer, and the unifier after it. -/
def Unifier.unify (unifier : Unifier Node) (call : Call Node) :
    Option (Substitution Node) × Unifier Node :=
  match unifier.memoFor call with
  | none => ((call.solve ast).map Walk.work, unifier)
  | some memo =>
    let key := call.memoKey ast
    match memo.get key with
    | (some hit, read) => (hit.map (replay call.subst), { unifier with memo := some read })
    | (none, read) =>
      let result := call.solve ast
      (result.map Walk.work, { unifier with memo := some (read.set key (result.map Walk.added)) })

/-- The answers to a sequence of calls. -/
def Unifier.run (unifier : Unifier Node) : List (Call Node) → List (Option (Substitution Node))
  | [] => []
  | call :: rest =>
    let (answer, next) := unifier.unify ast call
    answer :: Unifier.run next rest

/-- The unifier after a sequence of calls. -/
def Unifier.after (unifier : Unifier Node) : List (Call Node) → Unifier Node
  | [] => unifier
  | call :: rest => Unifier.after (unifier.unify ast call).2 rest

end Engine

end Senars.Unify
