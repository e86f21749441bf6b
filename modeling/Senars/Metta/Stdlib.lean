/-
This file is the grounded operations of MeTTa: the table they are registered in, and
the standard library, in the order it registers them.

The table is keyed by name, and a name that is registered twice keeps the operation
that came last. `length` is registered twice, for lists and then for texts.

What the operations on numbers compute is a parameter: the operations on lists and
texts do not ask for it. An operation gets its arguments as they were written.
Called with too few, `cons`, `append`, `if` and `let` give `undefined` or an expression
that holds it, which is no atom; here they fail, as the others do.
-/

import Senars.Library.OrderedMap
import Senars.Unify.MettaAtom

namespace Senars.Metta.Grounded

open Library Unify

/-! ### The table of operations -/

/-- A grounded operation. It returns an atom or throws. -/
structure GroundedOp where
  name : String
  execute : List MettaAtom → Option MettaAtom

/-- The registered operations. -/
abbrev OpTable : Type := OrderedMap String GroundedOp

def registerOp (ops : OpTable) (op : GroundedOp) : OpTable := ops.set op.name op

def getOp (ops : OpTable) (name : String) : Option GroundedOp := ops.get name

/-- Register operations one after the other. -/
def registerAll (ops : OpTable) (added : List GroundedOp) : OpTable := added.foldl registerOp ops

theorem getOp_registerAll (ops : OpTable) (added : List GroundedOp) (name : String) :
    getOp (registerAll ops added) name =
      (added.reverse.find? fun op => op.name = name).or (getOp ops name) := by
  induction added generalizing ops with
  | nil => rfl
  | cons op rest ih =>
    rw [registerAll, List.foldl_cons, ← registerAll, ih, List.reverse_cons,
      List.find?_append, Option.or_assoc]
    by_cases same : op.name = name
    · rw [getOp, registerOp, ← same]
      simp
    · rw [getOp, registerOp, OrderedMap.get_set_of_ne ops (Ne.symm same)]
      simp [same, getOp]

/-! ### Reading atoms -/

def toNumber : MettaAtom → Option JsNumber
  | .num value => some value
  | _ => none

def atomToString : MettaAtom → Option String
  | .str value => some value
  | _ => none

def isConsAtom : MettaAtom → Bool
  | .expr (.sym value) _ => value = "cons"
  | _ => false

/-- A text with an atom in it, as a template literal has it. -/
def atomTemplate : String := "[object Object]"

def errorAtom : MettaAtom := .sym "error"

/-- The arguments of an expression. -/
def argsOf : MettaAtom → List MettaAtom
  | .expr _ args => args
  | _ => []

/-- An argument of a list cell, or the error symbol. -/
def cellArg (cell : MettaAtom) (index : Nat) : MettaAtom := ((argsOf cell)[index]?).getD errorAtom

/-! ### Operations on numbers -/

/-- What the operations on numbers compute. -/
structure NumberOps where
  arithmetic : String → JsNumber → JsNumber → JsNumber
  comparison : String → JsNumber → JsNumber → Bool
  math : String → JsNumber → JsNumber
  /-- Equality of two atoms once their arithmetic is reduced. -/
  equal : MettaAtom → MettaAtom → Bool
  numberText : JsNumber → String

def boolAtom (holds : Bool) : MettaAtom := .sym (if holds then "True" else "False")

section Numbers

variable (numbers : NumberOps)

def arithOp (name : String) : GroundedOp where
  name := name
  execute
    | a :: b :: _ =>
      match toNumber a, toNumber b with
      | some fa, some fb => some (.sym (numbers.numberText (numbers.arithmetic name fa fb)))
      | _, _ => some (.sym (atomTemplate ++ name ++ atomTemplate))
    | _ => none

def cmpOp (name : String) : GroundedOp where
  name := name
  execute
    | a :: b :: _ =>
      match toNumber a, toNumber b with
      | some fa, some fb => some (boolAtom (numbers.comparison name fa fb))
      | _, _ => some (boolAtom false)
    | _ => none

def mathOp (name : String) : GroundedOp where
  name := name
  execute
    | a :: _ =>
      match toNumber a with
      | some fa => some (.sym (numbers.numberText (numbers.math name fa)))
      | none => some (.sym (name ++ "(" ++ atomTemplate ++ ")"))
    | _ => none

def eqOp : GroundedOp where
  name := "="
  execute
    | a :: b :: _ => some (boolAtom (numbers.equal a b))
    | _ => none

end Numbers

/-! ### Operations on lists -/

/-- A list cell. -/
def consAtom (head tail : MettaAtom) : MettaAtom := .expr (.sym "cons") [head, tail]

def consOp : GroundedOp where
  name := "cons"
  execute
    | head :: tail :: _ => some (consAtom head tail)
    | _ => none

def headOp : GroundedOp where
  name := "head"
  execute
    | list :: _ => some (if isConsAtom list then cellArg list 0 else errorAtom)
    | _ => none

def tailOp : GroundedOp where
  name := "tail"
  execute
    | list :: _ => some (if isConsAtom list then cellArg list 1 else errorAtom)
    | _ => none

theorem sizeOf_cellArg {cell} (isCell : isConsAtom cell = true)
    (more : isConsAtom (cellArg cell 1) = true) : sizeOf (cellArg cell 1) < sizeOf cell := by
  match cell, isCell with
  | .expr operator args, _ =>
    unfold cellArg argsOf at *
    cases found : args[1]? with
    | none =>
      rw [found] at more
      cases more
    | some tail =>
      have smaller := List.sizeOf_lt_of_mem (List.mem_of_getElem? found)
      simp only [Option.getD_some, MettaAtom.expr.sizeOf_spec]
      omega

/-- How many cells a list has. -/
def cellCount (list : MettaAtom) : Nat :=
  if isCell : isConsAtom list = true then
    if more : isConsAtom (cellArg list 1) = true then cellCount (cellArg list 1) + 1 else 1
  else 0
termination_by sizeOf list
decreasing_by exact sizeOf_cellArg isCell more

def lengthOp : GroundedOp where
  name := "length"
  execute
    | list :: _ => some (.num (.finite (cellCount list)))
    | _ => none

/-- The last cell of a list. -/
def lastCell (list : MettaAtom) : MettaAtom :=
  if _ : isConsAtom list = true ∧ isConsAtom (cellArg list 1) = true then
    lastCell (cellArg list 1)
  else list
termination_by sizeOf list
decreasing_by
  rename_i both
  exact sizeOf_cellArg both.1 both.2

def appendOp : GroundedOp where
  name := "append"
  execute
    | a :: b :: _ =>
      if !isConsAtom a then some b
      else
        let result := lastCell a
        if isConsAtom result then
          some (consAtom (cellArg result 0) (consAtom (cellArg result 1) b))
        else some (consAtom a b)
    | _ => none

def mapOp : GroundedOp where
  name := "map"
  execute
    | fn :: list :: _ =>
      if !isConsAtom list then some list
      else some (consAtom fn
        (consAtom (cellArg list 0) (.expr (.sym "map") [fn, cellArg list 1])))
    | _ => none

def filterOp : GroundedOp where
  name := "filter"
  execute
    | pred :: list :: _ =>
      if !isConsAtom list then some list
      else some (.expr (.sym "filter") [pred, cellArg list 1])
    | _ => none

/-! ### Operations on texts -/

def stringConcatOp : GroundedOp where
  name := "concat"
  execute
    | a :: b :: _ =>
      match atomToString a, atomToString b with
      | some sa, some sb => some (.str (sa ++ sb))
      | _, _ => some (.sym (atomTemplate ++ atomTemplate))
    | _ => none

def stringLengthOp : GroundedOp where
  name := "length"
  execute
    | s :: _ =>
      match atomToString s with
      | some ss => some (.num (.finite (codeUnits ss).length))
      | none => some (.num 0)
    | _ => none

/-! ### Control -/

def ifOp : GroundedOp where
  name := "if"
  execute
    | cond :: thenBranch :: rest => if cond = .sym "True" then some thenBranch else rest.head?
    | _ => none

def letOp : GroundedOp where
  name := "let"
  execute
    | _ :: _ :: body :: _ => some body
    | _ => none

def matchOp : GroundedOp where
  name := "match"
  execute _ := some (boolAtom true)

def printOp : GroundedOp where
  name := "print"
  execute _ := some (boolAtom true)

def errorOp : GroundedOp where
  name := "error"
  execute _ := none

/-! ### The standard library -/

/-- What the standard library registers, in its order. -/
def stdOps (numbers : NumberOps) : List GroundedOp :=
  [arithOp numbers "+", arithOp numbers "-", arithOp numbers "*", arithOp numbers "/",
    arithOp numbers "%", arithOp numbers "^", eqOp numbers, cmpOp numbers "!=",
    cmpOp numbers "<", cmpOp numbers ">", cmpOp numbers "<=", cmpOp numbers ">=",
    consOp, headOp, tailOp, lengthOp, appendOp, mapOp, filterOp,
    stringConcatOp, stringLengthOp,
    mathOp numbers "sin", mathOp numbers "cos", mathOp numbers "sqrt", mathOp numbers "abs",
    mathOp numbers "floor", mathOp numbers "ceil",
    ifOp, letOp, matchOp, printOp, errorOp]

def bootstrapStdLib (numbers : NumberOps) (ops : OpTable) : OpTable :=
  registerAll ops (stdOps numbers)

section Lookup

variable (numbers : NumberOps) (ops : OpTable)

theorem getOp_cons : getOp (bootstrapStdLib numbers ops) "cons" = some consOp := by
  rw [bootstrapStdLib, getOp_registerAll]
  rfl

theorem getOp_append : getOp (bootstrapStdLib numbers ops) "append" = some appendOp := by
  rw [bootstrapStdLib, getOp_registerAll]
  rfl

theorem getOp_length : getOp (bootstrapStdLib numbers ops) "length" = some stringLengthOp := by
  rw [bootstrapStdLib, getOp_registerAll]
  rfl

end Lookup

end Senars.Metta.Grounded
