/-
This file is the encoding of a call as an operation term, and its decoding: the name
is the first argument, and the second is a product of the arguments, each of them
`value --> key`.

An argument whose key is the text of its value cannot be written that way, since a
term does not inherit from itself. It is written as the product of the two, and the
factory splices that product into the one around it. What is read there are two
arguments without a name, which get their places for one.
-/

import Senars.Library.NumberWriting
import Senars.Library.OrderedMap
import Senars.Terms.Reduce

namespace Senars.Terms

open Library

/-! ### Atom symbols -/

def isValidAtomSymbol (symbol : String) : Bool := symbol.toList.all isAtomChar

/-- The characters of a text with every run of invalid ones replaced by one underscore. The flag
tells whether a run was replaced just before. -/
def replaceRuns : Bool → List Char → List Char
  | _, [] => []
  | inRun, char :: rest =>
    if isAtomChar char then char :: replaceRuns false rest
    else if inRun then replaceRuns true rest
    else '_' :: replaceRuns true rest

/-- A text made into a symbol. -/
def toAtomSymbol (text : String) : String :=
  let cleaned := String.ofList (replaceRuns false text.toList)
  if isValidAtomSymbol cleaned then cleaned else "unnamed"

/-- Whether a symbol is longer than a quote and stands between two. -/
def isQuoted (symbol : String) : Bool := 1 < symbol.toList.length && isQuotedAtom symbol

/-! ### Arguments -/

/-- A value an argument is given, or is read back as. -/
inductive ArgValue where
  | number (value : JsNumber)
  | bool (value : Bool)
  | text (value : String)
  | list (values : List ArgValue)

mutual

/-- `String(value)`. -/
def valueString : ArgValue → String
  | .number value => numberToString value
  | .bool value => if value then "true" else "false"
  | .text value => value
  | .list values => join "," (valueStrings values)

def valueStrings : List ArgValue → List String
  | [] => []
  | value :: rest => valueString value :: valueStrings rest

end

/-- The symbol a text is written as. -/
def writtenSymbol (text : String) : String :=
  if isValidAtomSymbol text || isQuoted text then text else toAtomSymbol text

/-- A record of arguments, in the order of its entries. -/
abbrev ArgRecord : Type := OrderedMap String ArgValue

/-! ### Writing -/

section Writing

variable (collator : Collator)

/-- The inheritance of two terms, neither of which holds the other. -/
def inheritanceOf (subj pred : Term) : Except TermError (Option Term) :=
  if containsSubterm subj pred || containsSubterm pred subj then .ok none
  else (createCompound termKey collator .inheritance [subj, pred]).map some

def argTerm (key : String) (value : ArgValue) : Except TermError Term := do
  let subj ← atomOf (writtenSymbol (valueString value))
  let pred ← atomOf (writtenSymbol key)
  match ← inheritanceOf collator subj pred with
  | some term => .ok term
  | none => createCompound termKey collator .product [subj, pred]

/-- The operation term of a call. -/
def operationTerm (name : String) (args : ArgRecord) : Except TermError Term := do
  let argTerms ← args.entries.mapM fun entry => argTerm collator entry.1 entry.2
  let op ← atomOf (writtenSymbol name)
  let product ← createCompound termKey collator .product argTerms
  createCompound termKey collator .operation [op, product]

end Writing

/-! ### Reading -/

/-- A call read back from an operation term. -/
structure OperationCall where
  name : String
  args : ArgRecord

/-- No arguments. -/
def noArgs : Term := .compound .product []

def operationNameOf : Term → Option String
  | .compound .operation (.atom symbol :: _) => some symbol
  | _ => none

/-- Digits, a point, and digits. -/
def isDecimalText (chars : List Char) : Bool :=
  match chars.span Char.isDigit with
  | (whole, '.' :: fraction) => (readDigits whole).isSome && (readDigits fraction).isSome
  | _ => false

/-- A text without its first and its last character. -/
def sliceEnds (text : String) : String := String.ofList (text.toList.drop 1).dropLast

/-- Whether a text begins and ends with a character. -/
def isEnclosed (quote : Char) (text : String) : Bool :=
  text.toList.head? == some quote && text.toList.getLast? == some quote

def singleQuote : Char := Char.ofNat 39

/-- The value an atom was written from. -/
def atomValue (symbol : String) : ArgValue :=
  match readDigits symbol.toList with
  | some whole => .number (toDouble whole)
  | none =>
    if isDecimalText symbol.toList then .number (numberOf symbol)
    else if symbol = "true" then .bool true
    else if symbol = "false" then .bool false
    else if isEnclosed '"' symbol then .text (sliceEnds symbol)
    else if isEnclosed singleQuote symbol then .text (sliceEnds symbol)
    else .text symbol

mutual

/-- The value a term stands for: an atom's own, or those of its arguments. -/
def termValue : Term → ArgValue
  | .atom symbol => atomValue symbol
  | .compound _ args => .list (termValues args)

def termValues : List Term → List ArgValue
  | [] => []
  | arg :: rest => termValue arg :: termValues rest

end

/-- The name of the argument at a place. -/
def placeName (index : Nat) : String := "arg" ++ toString index

/-- An argument with its name, or with its place for one. -/
def argEntry (index : Nat) : Term → String × ArgValue
  | .compound .inheritance (value :: .atom key :: _) => (key, termValue value)
  | term => (placeName index, termValue term)

def argEntriesOf (args : Option Term) : List (String × ArgValue) :=
  match args with
  | none => []
  | some term =>
    if termsEqual term noArgs then []
    else
      match term with
      | .compound .product args => args.mapIdx argEntry
      | other => [argEntry 0 other]

/-- Assign a property of a record. Assigning to `__proto__` makes no property. -/
def assign (record : ArgRecord) (entry : String × ArgValue) : ArgRecord :=
  if entry.1 = "__proto__" then record else record.set entry.1 entry.2

/-- The record of some entries, of which the last one to a key stays. -/
def mapToRecord (entries : List (String × ArgValue)) : ArgRecord :=
  entries.foldl assign OrderedMap.empty

/-- The call a term stands for. -/
def readOperationTerm (term : Term) : Option OperationCall :=
  (operationNameOf term).map fun name =>
    { name := name, args := mapToRecord (argEntriesOf (getArgs term)[1]?) }

end Senars.Terms
