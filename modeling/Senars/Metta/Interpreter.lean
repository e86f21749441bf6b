/-
This file is the MeTTa interpreter, and what it makes of the list library.

The interpreter reduces the outermost expression only and stops when a reduction
gives back the very expression it was given. No operation does: `cons` builds a new
cell each time, so an evaluation that arrives at a list cell goes on until its steps
run out. Arguments are not evaluated, so `length` of an unevaluated `append` is asked
of an expression, and the operation of that name is the one for texts.

What is left of the laws of `append` and `length` is the case of two empty lists.
-/

import Senars.Metta.Stdlib

namespace Senars.Metta.Grounded

open Library Unify

/-! ### Evaluation -/

/-- What an evaluation fails with. -/
inductive EvaluationError where
  | spaceNotFound (spaceId : String)
  | stepLimit (maxSteps : Nat) (spaceId : String)
  deriving DecidableEq

def EvaluationError.message : EvaluationError → String
  | .spaceNotFound spaceId => "[SPACE_NOT_FOUND] Space " ++ spaceId ++ " not found"
  | .stepLimit maxSteps _ =>
    "[STEP_LIMIT] Evaluation did not reach a normal form in " ++ toString maxSteps ++ " steps"

def defaultMaxSteps : Nat := 10000

/-- An interpreter: the ids of its spaces, and the limit its context sets. -/
structure Interpreter where
  spaces : List String
  maxSteps : Option Nat

def Interpreter.addSpace (interpreter : Interpreter) (spaceId : String) : Interpreter :=
  { interpreter with spaces := spaceId :: interpreter.spaces }

/-- One reduction of an atom; none where the atom itself is returned. -/
def reduce (ops : OpTable) : MettaAtom → Option MettaAtom
  | .expr (.sym name) args =>
    match getOp ops name with
    | some op => op.execute args
    | none => none
  | _ => none

/-- The normal form of an atom, if the steps suffice to find that nothing changes it. -/
def normalForm (ops : OpTable) : Nat → MettaAtom → Option MettaAtom
  | 0, _ => none
  | steps + 1, current =>
    match reduce ops current with
    | none => some current
    | some reduced => normalForm ops steps reduced

/-- The steps an evaluation may take. -/
def stepLimit (interpreter : Interpreter) (override : Option Nat) : Nat :=
  (override.or interpreter.maxSteps).getD defaultMaxSteps

def evaluate (ops : OpTable) (interpreter : Interpreter) (program : MettaAtom) (spaceId : String)
    (override : Option Nat) : Except EvaluationError MettaAtom :=
  if spaceId ∈ interpreter.spaces then
    let maxSteps := stepLimit interpreter override
    match normalForm ops maxSteps program with
    | some current => .ok current
    | none => .error (.stepLimit maxSteps spaceId)
  else .error (.spaceNotFound spaceId)

theorem evaluate_eq_ok {ops interpreter program result spaceId override} :
    evaluate ops interpreter program spaceId override = .ok result ↔
      spaceId ∈ interpreter.spaces ∧
        normalForm ops (stepLimit interpreter override) program = some result := by
  unfold evaluate
  by_cases known : spaceId ∈ interpreter.spaces
  · simp only [known, if_true, true_and]
    cases normalForm ops (stepLimit interpreter override) program <;> simp
  · simp [known]

/-! ### Lists -/

/-- The proper list of some atoms. -/
def ofList : List MettaAtom → MettaAtom
  | [] => .sym "Nil"
  | head :: tail => consAtom head (ofList tail)

def appendExpr (xs ys : List MettaAtom) : MettaAtom :=
  .expr (.sym "append") [ofList xs, ofList ys]

def lengthExpr (list : MettaAtom) : MettaAtom := .expr (.sym "length") [list]

@[simp] theorem isConsAtom_ofList (xs : List MettaAtom) :
    isConsAtom (ofList xs) = !xs.isEmpty := by
  cases xs <;> rfl

@[simp] theorem cellArg_ofList_one (head : MettaAtom) (tail : List MettaAtom) :
    cellArg (ofList (head :: tail)) 1 = ofList tail := rfl

theorem lastCell_ofList (xs : List MettaAtom) (last : MettaAtom) :
    lastCell (ofList (xs ++ [last])) = ofList [last] := by
  induction xs with
  | nil =>
    rw [lastCell]
    simp
  | cons head tail ih =>
    rw [lastCell, List.cons_append, cellArg_ofList_one, ih]
    simp

theorem appendOp_ofList (xs : List MettaAtom) (last added : MettaAtom) :
    appendOp.execute [ofList (xs ++ [last]), added] =
      some (consAtom last (consAtom (ofList []) added)) := by
  simp only [appendOp, isConsAtom_ofList, lastCell_ofList]
  simp [ofList, cellArg, argsOf, consAtom]

/-! ### What the interpreter makes of them -/

section Evaluation

variable (numbers : NumberOps) (ops : OpTable)

theorem normalForm_consAtom (head tail : MettaAtom) (steps : Nat) :
    normalForm (bootstrapStdLib numbers ops) steps (consAtom head tail) = none := by
  induction steps with
  | zero => rfl
  | succ steps ih =>
    have again : reduce (bootstrapStdLib numbers ops) (consAtom head tail) =
        some (consAtom head tail) := by
      simp only [reduce, consAtom, getOp_cons, consOp]
    rw [normalForm, again]
    exact ih

theorem normalForm_of_reduce_eq_none {atom} (normal : reduce ops atom = none) (steps : Nat) :
    normalForm ops steps atom = if 1 ≤ steps then some atom else none := by
  cases steps with
  | zero => rfl
  | succ steps =>
    rw [normalForm, normal]
    simp

theorem normalForm_of_reduce {atom reduced} (first : reduce ops atom = some reduced)
    (normal : reduce ops reduced = none) (steps : Nat) :
    normalForm ops steps atom = if 2 ≤ steps then some reduced else none := by
  cases steps with
  | zero => rfl
  | succ steps =>
    rw [normalForm, first]
    dsimp only
    rw [normalForm_of_reduce_eq_none ops normal]
    simp only [Nat.reduceLeDiff]

theorem normalForm_append (xs ys : List MettaAtom) (steps : Nat) :
    normalForm (bootstrapStdLib numbers ops) steps (appendExpr xs ys) =
      if 2 ≤ steps ∧ xs = [] ∧ ys = [] then some (ofList []) else none := by
  have first : reduce (bootstrapStdLib numbers ops) (appendExpr xs ys) =
      appendOp.execute [ofList xs, ofList ys] := by
    simp only [reduce, appendExpr, getOp_append]
  -- Whatever is appended, if the reduction is a list cell no number of steps suffices.
  have stuck : ∀ head tail : MettaAtom,
      appendOp.execute [ofList xs, ofList ys] = some (consAtom head tail) →
      normalForm (bootstrapStdLib numbers ops) steps (appendExpr xs ys) = none := by
    intro head tail toCell
    cases steps with
    | zero => rfl
    | succ steps =>
      rw [normalForm, first, toCell]
      exact normalForm_consAtom numbers ops head tail steps
  cases xs with
  | nil =>
    cases ys with
    | nil =>
      rw [normalForm_of_reduce (bootstrapStdLib numbers ops) first rfl]
      simp
    | cons head tail =>
      rw [stuck head (ofList tail) rfl]
      simp
  | cons head tail =>
    obtain ⟨kept, last, split⟩ := (List.eq_nil_or_concat (head :: tail)).resolve_left (by simp)
    rw [stuck last (consAtom (ofList []) (ofList ys))
      (by rw [split, List.concat_eq_append]; exact appendOp_ofList kept last (ofList ys))]
    simp

theorem normalForm_length (xs ys : List MettaAtom) (steps : Nat) :
    normalForm (bootstrapStdLib numbers ops) steps (lengthExpr (appendExpr xs ys)) =
      if 2 ≤ steps then some (.num 0) else none := by
  refine normalForm_of_reduce _ ?_ rfl steps
  simp only [reduce, lengthExpr, getOp_length, stringLengthOp, appendExpr, atomToString]

/-- The laws of `append` and `length` for two lists. -/
def ListLaws (interpreter : Interpreter) (spaceId : String) (override : Option Nat)
    (xs ys : List MettaAtom) : Prop :=
  let table := bootstrapStdLib numbers ops
  evaluate table interpreter (appendExpr xs ys) spaceId override = .ok (ofList (xs ++ ys)) ∧
    evaluate table interpreter (lengthExpr (appendExpr xs ys)) spaceId override =
      .ok (.num (.finite (xs.length + ys.length)))

end Evaluation

/-- With a space and two steps or more, the laws of `append` and `length` hold of two lists
exactly when both are empty; without, they hold of none. -/
theorem listLaws_iff (numbers : NumberOps) (ops : OpTable) (interpreter : Interpreter)
    (spaceId : String) (override : Option Nat) (xs ys : List MettaAtom) :
    ListLaws numbers ops interpreter spaceId override xs ys ↔
      spaceId ∈ interpreter.spaces ∧ 2 ≤ stepLimit interpreter override ∧ xs = [] ∧ ys = [] := by
  rw [ListLaws, evaluate_eq_ok, evaluate_eq_ok, normalForm_append, normalForm_length]
  constructor
  · rintro ⟨⟨known, appended⟩, -⟩
    split at appended
    · rename_i both
      exact ⟨known, both⟩
    · cases appended
  · rintro ⟨known, enough, rfl, rfl⟩
    rw [if_pos ⟨enough, rfl, rfl⟩, if_pos enough]
    exact ⟨⟨known, rfl⟩, known, by simp⟩

/-- Appending nothing to the list of one symbol gives no list. -/
theorem append_not_evaluated :
    ¬ ∀ (numbers : NumberOps) (ops : OpTable) (xs ys : List MettaAtom),
      ListLaws numbers ops (Interpreter.addSpace ⟨[], none⟩ "default") "default" none xs ys := by
  intro claim
  have laws := claim ⟨fun _ x _ => x, fun _ _ _ => true, fun _ x => x, fun _ _ => true,
    fun _ => ""⟩ OrderedMap.empty [.sym "a"] []
  have appended := (evaluate_eq_ok.mp laws.1).2
  rw [normalForm_append] at appended
  simp at appended

end Senars.Metta.Grounded
