/-
This file is the Narsese text of a term, as `serialize.ts` writes it.

The surface form is picked by the kind and the number of arguments. An n-ary
kind is infix at two members and prefix from three on, and the comma form is
the product's only form. A statement kind prints its first two arguments, and
prints nothing when it has fewer. An operation always parenthesises its
arguments, and the product that carries them is not printed a second time.
-/

import Senars.Terms.Term

namespace Senars.Terms

open Library

/-- The kinds of two arguments that are not n-ary. -/
def binaryOps (kind : OperatorKey) : Bool := (operators kind).arity == 2 && !naryOps kind

/-- What the text of a unary kind begins and ends with. -/
def wrappers : OperatorKey → String × String
  | .negation => ("--", "")
  | .setExt => ("\x7b", "\x7d")
  | .setInt => ("[", "]")
  | _ => ("", "")

/-- What stands between the arguments of an n-ary kind. -/
def narySeparator : OperatorKey → String
  | .product => ","
  | kind => (operators kind).symbol

/-- The text of an n-ary kind without arguments. -/
def emptyCompound : OperatorKey → String
  | .conjunction => "TRUE"
  | .disjunction => "FALSE"
  | .product => "()"
  | .parallel => "TRUE"
  | _ => ""

/-- The text of an n-ary compound from the texts of its arguments. -/
def serializeNary (kind : OperatorKey) : List String → String
  | [] => emptyCompound kind
  | [text] => if kind = .product then "(" ++ text ++ ")" else text
  | [first, second] => "(" ++ first ++ narySeparator kind ++ second ++ ")"
  | texts =>
    if kind = .product then "(" ++ join "," texts ++ ")"
    else "(" ++ (operators kind).symbol ++ "," ++ join "," texts ++ ")"

/-- The text of a statement from the texts of its arguments. -/
def serializeBinary (kind : OperatorKey) : List String → String
  | first :: second :: _ => "(" ++ first ++ (operators kind).symbol ++ second ++ ")"
  | _ => ""

/-- The text of a compound that is not an operation. -/
def serializeCompound (kind : OperatorKey) (texts : List String) : String :=
  if naryOps kind then serializeNary kind texts
  else if binaryOps kind then serializeBinary kind texts
  else (wrappers kind).1 ++ join "," texts ++ (wrappers kind).2

mutual

/-- The Narsese text of a term. -/
def serializeTerm : Term → String
  | .atom symbol => symbol
  | .compound .operation args => serializeOperation args
  | .compound kind args => serializeCompound kind (serializeArgs args)

def serializeArgs : List Term → List String
  | [] => []
  | arg :: rest => serializeTerm arg :: serializeArgs rest

/-- The text of an operation: the parentheses belong to the operation, so a product of
arguments is opened up. -/
def serializeOperation : List Term → String
  | op :: .compound .product args :: _ =>
    "(" ++ serializeTerm op ++ "^(" ++ join "," (serializeArgs args) ++ "))"
  | op :: arg :: _ => "(" ++ serializeTerm op ++ "^(" ++ serializeTerm arg ++ "))"
  | _ => ""

end

theorem serializeArgs_eq (args : List Term) : serializeArgs args = args.map serializeTerm := by
  induction args with
  | nil => rfl
  | cons arg rest ih =>
    rw [serializeArgs, ih, List.map_cons]

example : serializeTerm (.compound .conjunction [.atom "a", .atom "b", .atom "c"]) =
    "(&,a,b,c)" := by decide

end Senars.Terms
