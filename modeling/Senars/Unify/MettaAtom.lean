/-
This file is the MeTTa atom and its structural hash, as `hash.ts` has them.

A number is a script number, so there is a value that equals nothing, and its two
zeros, which are equal and print alike, are one. How a number prints is a
parameter: only the hash reads it.
-/

import Senars.Library.Text
import Senars.Library.JsNumber

namespace Senars.Unify

open Library

/-! ### Atoms -/

inductive MettaAtom where
  | sym (value : String)
  | varr (name : String)
  | num (value : JsNumber)
  | str (value : String)
  | expr (operator : MettaAtom) (args : List MettaAtom)
  | grounded (op : String) (args : List MettaAtom)

namespace MettaAtom

mutual

/-- Structural equality of two atoms is decidable. -/
def decEq : (first second : MettaAtom) → Decidable (first = second)
  | .sym first, .sym second =>
    if same : first = second then isTrue (congrArg sym same)
    else isFalse fun equal => same (sym.inj equal)
  | .varr first, .varr second =>
    if same : first = second then isTrue (congrArg varr same)
    else isFalse fun equal => same (varr.inj equal)
  | .num first, .num second =>
    if same : first = second then isTrue (congrArg num same)
    else isFalse fun equal => same (num.inj equal)
  | .str first, .str second =>
    if same : first = second then isTrue (congrArg str same)
    else isFalse fun equal => same (str.inj equal)
  | .expr firstOperator firstArgs, .expr secondOperator secondArgs =>
    match decEq firstOperator secondOperator, decEqArgs firstArgs secondArgs with
    | isTrue operators, isTrue args => isTrue (congr (congrArg expr operators) args)
    | isFalse different, _ => isFalse fun equal => different (expr.inj equal).1
    | _, isFalse different => isFalse fun equal => different (expr.inj equal).2
  | .grounded firstOp firstArgs, .grounded secondOp secondArgs =>
    if sameOp : firstOp = secondOp then
      match decEqArgs firstArgs secondArgs with
      | isTrue args => isTrue (congr (congrArg grounded sameOp) args)
      | isFalse different => isFalse fun equal => different (grounded.inj equal).2
    else isFalse fun equal => sameOp (grounded.inj equal).1
  | .sym _, .varr _ | .sym _, .num _ | .sym _, .str _ | .sym _, .expr _ _ | .sym _, .grounded _ _
  | .varr _, .sym _ | .varr _, .num _ | .varr _, .str _ | .varr _, .expr _ _
  | .varr _, .grounded _ _ | .num _, .sym _ | .num _, .varr _ | .num _, .str _
  | .num _, .expr _ _ | .num _, .grounded _ _ | .str _, .sym _ | .str _, .varr _
  | .str _, .num _ | .str _, .expr _ _ | .str _, .grounded _ _ | .expr _ _, .sym _
  | .expr _ _, .varr _ | .expr _ _, .num _ | .expr _ _, .str _ | .expr _ _, .grounded _ _
  | .grounded _ _, .sym _ | .grounded _ _, .varr _ | .grounded _ _, .num _
  | .grounded _ _, .str _ | .grounded _ _, .expr _ _ => isFalse nofun

/-- Structural equality of two lists of atoms is decidable. -/
def decEqArgs : (first second : List MettaAtom) → Decidable (first = second)
  | [], [] => isTrue rfl
  | [], _ :: _ => isFalse nofun
  | _ :: _, [] => isFalse nofun
  | first :: firsts, second :: seconds =>
    match decEq first second, decEqArgs firsts seconds with
    | isTrue same, isTrue rest => isTrue (congr (congrArg List.cons same) rest)
    | isFalse different, _ => isFalse fun equal => different (List.cons.inj equal).1
    | _, isFalse different => isFalse fun equal => different (List.cons.inj equal).2

end

instance : DecidableEq MettaAtom := decEq

/-- The number of the atom's kind in `AtomKind`. -/
def kind : MettaAtom → Nat
  | .sym _ => 0
  | .varr _ => 1
  | .num _ => 2
  | .str _ => 3
  | .expr _ _ => 4
  | .grounded _ _ => 5

end MettaAtom

/-! ### The hash -/

/-- 32-bit FNV-1a over the code units of a text. -/
def fnv1a (text : String) : Nat :=
  (codeUnits text).foldl (fun hash unit => (hash ^^^ unit) * 0x01000193 % 2 ^ 32) 0x811c9dc5

/-- The FNV-1a combine step. -/
def fnv1aCombine (acc val : Nat) : Nat := (acc ^^^ val) * 0x01000193 % 2 ^ 32

section Hash

variable (numberText : JsNumber → String)

mutual

/-- The structural hash of an atom. -/
def hashAtom : MettaAtom → Nat
  | .sym value => fnv1a ("sym:" ++ value)
  | .varr name => fnv1a ("var:" ++ name)
  | .num value => fnv1a ("num:" ++ numberText value)
  | .str value => fnv1a ("str:" ++ value)
  | .expr operator args => hashArgs (hashAtom operator) args
  | .grounded op args => hashArgs (fnv1a ("grounded:" ++ op)) args

/-- A hash with those of a list of atoms combined into it. -/
def hashArgs (hash : Nat) : List MettaAtom → Nat
  | [] => hash
  | arg :: rest => hashArgs (fnv1aCombine hash (hashAtom arg)) rest

end

/-- The bucket key of an atom. -/
def atomKey (atom : MettaAtom) : String :=
  toString atom.kind ++ "#" ++ toString (hashAtom numberText atom)

theorem hashArgs_append (hash : Nat) (first second : List MettaAtom) :
    hashArgs numberText hash (first ++ second) =
      hashArgs numberText (hashArgs numberText hash first) second := by
  induction first generalizing hash with
  | nil => rw [List.nil_append, hashArgs]
  | cons arg rest ih =>
    rw [List.cons_append, hashArgs, hashArgs, ih]

theorem atomKey_flatten (operator : MettaAtom) (first second : List MettaAtom) :
    atomKey numberText (.expr (.expr operator first) second) =
      atomKey numberText (.expr operator (first ++ second)) := by
  simp only [atomKey, MettaAtom.kind, hashAtom, hashArgs_append]

end Hash

end Senars.Unify
