/-
This file is the grammar of `narsese.peggy`: its rules in their order, and the
actions that build terms through the factory.

A rule that reads a term is given the rule for terms, and the recursion between
them is cut by fuel. The rule for terms calls itself only after it read a
character, so a text never needs more fuel than it has characters.

A value of the grammar is a term or `undefined`, which the factory's
`inheritance` answers when one of its arguments occurs in the other. The intern
cache changes no term here, as in `Intern`.
-/

import Senars.Library.JsNumber
import Senars.Library.Peg
import Senars.Terms.Reduce

namespace Senars.Grammar

open Library Peg Terms

/-! ### Values and errors -/

/-- A term, or `undefined`. -/
abbrev Node : Type := Option Term

/-- What an action of the grammar throws. -/
inductive GrammarError where
  | term (error : TermError)
  | sigilOpensCompound
  /-- No operator token is without a kind, so this is never thrown. -/
  | notAnOperator (symbol : String)
  | truthOutOfRange (frequency confidence : JsNumber)
  | frequencyOutOfRange (frequency : JsNumber)
  deriving DecidableEq

/-- The text of an error. `numberText` is the text of a number. -/
def GrammarError.message (numberText : JsNumber → String) : GrammarError → String
  | .term error => error.message
  | .sigilOpensCompound => "'^' is the operation sigil and cannot open a compound"
  | .notAnOperator symbol => "'" ++ symbol ++ "' is not an operator"
  | .truthOutOfRange frequency confidence =>
    "Truth values out of range: frequency=" ++ numberText frequency ++
      " (0-1), confidence=" ++ numberText confidence ++ " (0-1)"
  | .frequencyOutOfRange frequency =>
    "Frequency value out of range: " ++ numberText frequency ++ " (should be 0-1)"

abbrev Rule (Value : Type) : Type := Peg GrammarError Value

/-! ### Character classes -/

/-- Whether a character may follow the sigil of a variable. -/
def variableChar (char : Char) : Bool :=
  !"()\x7b\x7d[]<>.,!%?; \t\n\r=&/|-".toList.contains char

/-- Whether a character may stand after the first colon of a namespaced atom. -/
def colonedChar (char : Char) : Bool := variableChar char && char != '@'

/-- Whether a character may stand in the name of an operation. -/
def operationChar (char : Char) : Bool := colonedChar char && char != '^'

/-- Whether a character may stand in an atom. -/
def atomicChar (char : Char) : Bool := operationChar char && char != ':'

def isSigil (char : Char) : Bool := "?$#*%".toList.contains char

def isSpace (char : Char) : Bool := " \t\n\r".toList.contains char

/-- `_` -/
def whitespace : Rule (List Char) := run isSpace

/-! ### Operators -/

/-- The kind each operator symbol names, in its canonical and in its older spellings. -/
def kindOf : String → Option OperatorKey
  | "-->" => some .inheritance
  | "<->" => some .similarity
  | "==>" => some .implication
  | "<=>" => some .equivalence
  | "=/>" => some .predictive
  | "=|" => some .retrospective
  | "&" => some .conjunction
  | "|" => some .disjunction
  | "&|" => some .parallel
  | "&/" => some .sequence
  | "^" => some .operation
  | "&&" => some .conjunction
  | "||" => some .disjunction
  | "=>" => some .implication
  | ",/" => some .sequence
  | _ => none

def operatorKind (symbol : String) : Rule OperatorKey :=
  act (match kindOf symbol with
    | some kind => .ok kind
    | none => .error (.notAnOperator symbol))

/-- The operator tokens, in the order they are tried. A token that begins with an earlier one
is never read. -/
def operatorTokens : List String :=
  ["-->", "<->", "==>", "<=>", "=/>", "=|", "&|", "&/", "^", "&", "|", "&&", "||", "=>", ",/",
    "-->,", "<->,", "==>,", "<=>,", "&,", "|,"]

def operatorToken : Rule String := firstOf (operatorTokens.map token)

/-- An operator token without the comma it may end in. -/
def operatorSymbol : Rule String := do
  let op ← operatorToken
  return if op.toList.getLast? = some ',' then String.ofList op.toList.dropLast else op

def infixOperator : Rule String := operatorToken

/-! ### Actions -/

/-- What the factory makes of an action's arguments. -/
def build (built : Except TermError Term) : Rule Node :=
  act (match built with
    | .ok term => .ok (some term)
    | .error error => .error (.term error))

def atom (chars : List Char) : Rule Node := build (atomOf (String.ofList chars))

section Rules

variable (collator : Collator)

/-- The factory's `create`. The constructor drops what is not a term from the arguments. -/
def create (kind : OperatorKey) (components : List Node) : Rule Node :=
  build (createCompound termKey collator kind (components.filterMap id))

/-- The factory's `inheritance`. -/
def inheritance (subj pred : Node) : Rule Node :=
  match subj, pred with
  | some subj, some pred =>
    if containsSubterm subj pred || containsSubterm pred subj then succeed none
    else create collator .inheritance [some subj, some pred]
  | _, _ => act (.error (.term .notATerm))

/-- The factory's `operation` of an operator and the arguments in its parentheses. -/
def operation (operator : Node) (args : List Node) : Rule Node :=
  match args with
  | [arg] => create collator .operation [operator, arg]
  | args => do
    let product ← create collator .product args
    create collator .operation [operator, product]

/-! ### Atoms -/

def stringLiteral : Rule Node := do
  literal "\""
  let chars ← run (· != '"')
  literal "\""
  atom ('"' :: chars ++ ['"'])

def atomicTerm : Rule Node :=
  firstOf [stringLiteral, run1 atomicChar >>= atom]

/-- An atom with colons. The head reads every colon there is, so the tail never finds one. -/
def colonedAtom : Rule Node := do
  let head ← run1 operationChar
  let tail ← star1 do
    literal ":"
    let chars ← run1 colonedChar
    return ':' :: chars
  atom (head ++ tail.flatten)

def operationAtomicTerm : Rule Node :=
  firstOf [stringLiteral, colonedAtom, run1 operationChar >>= atom]

def variableTerm : Rule Node := do
  let sigil ← oneOf isSigil
  let chars ← run variableChar
  atom (sigil :: chars)

def imagePlaceholder : Rule Node :=
  firstOf [
    do literal "\\"; atom ['\\'],
    do literal "/"; atom ['/']]

/-! ### Terms -/

variable (term : Rule Node)

def compactInheritance : Rule Node := do
  let pred ← atomicTerm
  literal ":"
  let subj ← term
  inheritance collator subj pred

def negationTerm : Rule Node := do
  literal "--"
  let operand ← term
  create collator .negation [operand]

def deltaTerm : Rule Node :=
  firstOf [
    do
      literal "Δ"
      let operand ← term
      create collator .negation [operand],
    do
      literal "/\\"
      let operand ← term
      create collator .negation [operand]]

def termList : Rule (List Node) := do
  let head ← term
  let tail ← star do
    let _ ← whitespace
    literal ","
    let _ ← whitespace
    term
  return head :: tail

/-- A list of terms, or nothing. -/
def components : Rule (List Node) := do
  let listed ← optional (termList term)
  return listed.getD []

/-- The two terms of a statement and the operator between them. -/
def infixStatement (opening closing : String) : Rule Node := do
  literal opening
  let _ ← whitespace
  let subject ← term
  let _ ← whitespace
  let op ← infixOperator
  let _ ← optional whitespace
  let _ ← whitespace
  let predicate ← term
  let _ ← whitespace
  literal closing
  let kind ← operatorKind op
  create collator kind [subject, predicate]

def angleBracketStatement : Rule Node := infixStatement collator term "<" ">"

def parenthesizedStatement : Rule Node := infixStatement collator term "(" ")"

def statement : Rule Node :=
  firstOf [angleBracketStatement collator term, parenthesizedStatement collator term]

def parenthesizedNegation : Rule Node := do
  literal "("
  let _ ← whitespace
  literal "--"
  let _ ← whitespace
  let operand ← term
  let _ ← whitespace
  literal ")"
  create collator .negation [operand]

def prefixCompound : Rule Node := do
  literal "("
  let _ ← whitespace
  let symbol ← operatorSymbol
  let _ ← whitespace
  let _ ← optional (literal ",")
  let _ ← whitespace
  let listed ← termList term
  let _ ← whitespace
  literal ")"
  if symbol = "^" then act (.error .sigilOpensCompound)
  else do
    let kind ← operatorKind symbol
    create collator kind listed

def operationCall : Rule Node := do
  let operator ← operationAtomicTerm
  literal "("
  let _ ← whitespace
  let args ← components term
  let _ ← whitespace
  literal ")"
  operation collator operator args

def product : Rule Node := do
  literal "("
  let _ ← whitespace
  let listed ← components term
  let _ ← whitespace
  literal ")"
  create collator .product listed

def compoundTerm : Rule Node :=
  firstOf [parenthesizedNegation collator term, prefixCompound collator term,
    operationCall collator term, product collator term]

def bracketedSet (opening closing : String) (kind : OperatorKey) : Rule Node := do
  literal opening
  let _ ← whitespace
  let listed ← components term
  let _ ← whitespace
  literal closing
  create collator kind listed

def set : Rule Node :=
  firstOf [bracketedSet collator term "\x7b" "\x7d" .setExt,
    bracketedSet collator term "[" "]" .setInt]

/-- The alternatives of `Term`. -/
def termAlternatives : List (Rule Node) :=
  [statement collator term, compactInheritance collator term, negationTerm collator term,
    deltaTerm collator term, compoundTerm collator term, set collator term, variableTerm,
    imagePlaceholder, atomicTerm]

end Rules

/-- `Term`, nested no deeper than the fuel. -/
def term (collator : Collator) : Nat → Rule Node
  | 0 => fun _ => .exhausted
  | fuel + 1 => firstOf (termAlternatives collator (term collator fuel))

/-! ### Tasks -/

inductive TaskType where
  | BELIEF | QUESTION | GOAL | QUEST | COMMAND
  deriving DecidableEq

structure TruthValue where
  frequency : JsNumber
  confidence : JsNumber
  deriving DecidableEq

structure Task where
  term : Node
  punctuation : Char
  truthValue : Option TruthValue
  taskType : TaskType
  deriving DecidableEq

def taskTypeOf (punc : Char) : TaskType :=
  if punc = '?' then .QUESTION
  else if punc = '!' then .GOAL
  else if punc = '@' then .QUEST
  else if punc = ';' then .COMMAND
  else .BELIEF

def punctuation : Rule Char := do
  let _ ← whitespace
  oneOf (".!?@;".toList.contains ·)

section Tasks

variable (parseFloat : String → JsNumber)

def digits : Rule (List Char) := run1 Char.isDigit

def float : Rule JsNumber := do
  let sign ← optional (token "-")
  let whole ← digits
  let fraction ← optional do
    literal "."
    let chars ← digits
    return '.' :: chars
  return parseFloat (sign.getD "" ++ String.ofList (whole ++ fraction.getD []))

/-- Whether a number is below zero or above one. -/
def outOfRange (number : JsNumber) : Bool := JsNumber.less number 0 || JsNumber.less 1 number

def truthOfPair : Rule TruthValue := do
  let _ ← whitespace
  literal "%"
  let _ ← whitespace
  let frequency ← float parseFloat
  let _ ← whitespace
  literal ";"
  let _ ← whitespace
  let confidence ← float parseFloat
  let _ ← whitespace
  literal "%"
  act (if outOfRange frequency || outOfRange confidence then
      .error (.truthOutOfRange frequency confidence)
    else .ok { frequency, confidence })

def truthOfFrequency : Rule TruthValue := do
  let _ ← whitespace
  literal "%"
  let _ ← whitespace
  let frequency ← float parseFloat
  let _ ← whitespace
  literal "%"
  act (if outOfRange frequency then .error (.frequencyOutOfRange frequency)
    else .ok { frequency, confidence := .finite (9 / 10) })

def truthValue : Rule TruthValue :=
  firstOf [truthOfPair parseFloat, truthOfFrequency parseFloat]

def task (term : Rule Node) : Rule Task := do
  let read ← term
  let punc ← punctuation
  let truth ← optional (truthValue parseFloat)
  return { term := read, punctuation := punc, truthValue := truth, taskType := taskTypeOf punc }

end Tasks

/-! ### The whole text -/

/-- What a text is accepted as. -/
inductive Content where
  | task (task : Task)
  | term (term : Node)
  deriving DecidableEq

section Start

variable (collator : Collator) (parseFloat : String → JsNumber)

/-- `start`, up to the end of the text. -/
def start (fuel : Nat) : Rule Content := do
  let _ ← whitespace
  let content ← firstOf [
    do return .task (← task parseFloat (term collator fuel)),
    do return .term (← term collator fuel)]
  let _ ← whitespace
  return content

/-- Parse a text: `start` has to read all of it. -/
def parse (text : String) : Outcome GrammarError Content :=
  match start collator parseFloat (text.toList.length + 1) text.toList with
  | .success _ (_ :: _) => .failure
  | outcome => outcome

/-- Whether a text is accepted as a term, and which. -/
def ParsesTo (text : String) (term : Term) : Prop :=
  parse collator parseFloat text = .success (.term (some term)) []

end Start

end Senars.Grammar
