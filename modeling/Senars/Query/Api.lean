/-
This file is the answering of a question: the concept of the asked term first,
then the concepts similar to it.

How similar concepts are found and how a text is read are parameters, and so is
which terms are one object; of the search it is known that it returns no more
concepts than asked for, and resident ones. The unifier is shared by every caller,
so a question takes it as it is and leaves it as it is then.
-/

import Senars.Query.Task
import Senars.Unify.Instances

namespace Senars.Query

open Library Terms Unify Senars.Algebra

/-! ### The memory -/

/-- An item of a belief bag. -/
structure TaskData where
  term : Term
  truth : Option Truth
  stamp : Stamp

/-- What is read of a belief that has a truth. -/
structure TopBelief where
  truth : Truth
  stamp : Stamp

structure Concept (collator : Collator) where
  term : Term
  built : FactoryBuilt collator term
  priority : JsNumber
  /-- The items of the belief bag, the strongest first. -/
  beliefBag : List TaskData

/-- The strongest belief of a concept, if it has a truth. -/
def Concept.topBelief {collator : Collator} (concept : Concept collator) : Option TopBelief :=
  match concept.beliefBag with
  | [] => none
  | top :: _ => top.truth.map fun truth => ⟨truth, top.stamp⟩

/-- The resident concepts, each under its term. -/
structure Memory (collator : Collator) where
  concepts : OrderedMap String (Concept collator)
  keyed : ∀ entry ∈ concepts.entries, entry.1 = termKey entry.2.term

namespace Memory

variable {collator : Collator}

def getConcept (memory : Memory collator) (term : Term) : Option (Concept collator) :=
  memory.concepts.get (termKey term)

def Resident (memory : Memory collator) (concept : Concept collator) : Prop :=
  (termKey concept.term, concept) ∈ memory.concepts.entries

theorem resident_of_getConcept {memory : Memory collator} {term concept}
    (found : memory.getConcept term = some concept) :
    memory.Resident concept ∧ termKey concept.term = termKey term := by
  have member := OrderedMap.mem_of_getEntry found
  have key : termKey term = termKey concept.term := memory.keyed _ member
  rw [key] at member
  exact ⟨member, key.symm⟩

end Memory

/-! ### The query interface -/

/-- What `Truth.expectation` computes. -/
def expectation (truth : Truth) : ℚ := truth.c * (truth.f - 1 / 2) + 1 / 2

/-- The identifiers a belief rests on, its own last. -/
def lineage (stamp : Stamp) : List String := stamp.derivations ++ [stamp.id]

inductive Question where
  | text (question : String)
  | term (question : Term)

structure Answer where
  question : String
  answer : Option String := none
  truth : Option Truth := none
  confidence : Option JsNumber := none
  evidence : List Task
  derivationLineage : Option (List String) := none

structure QueryApi (collator : Collator) where
  memory : Memory collator
  findSimilarConcepts : Term → Nat → List (Concept collator)
  atMost : ∀ term limit, (findSimilarConcepts term limit).length ≤ limit
  resident : ∀ term limit, ∀ concept ∈ findSimilarConcepts term limit, memory.Resident concept
  parseQuestion : String → Option Term
  /-- Whether two terms are one object. -/
  identical : Term → Term → Bool
  identical_sound : ∀ left right, identical left right = true → left = right

/-- How many similar concepts a question looks at. -/
def neighbourLimit : Nat := 5

namespace QueryApi

variable {collator : Collator} (api : QueryApi collator)

def createTaskFromBelief (concept : Concept collator) (belief : TopBelief) :
    Except TaskError Task :=
  canonicalTask collator
    { term := concept.term
      truth := normalizeTruth (.finite belief.truth.f) (.finite belief.truth.c)
      priority := concept.priority
      stamp := belief.stamp }

/-- The answer from the asked term's own concept, if it believes the term. -/
def tryAnswer (question : Term) (concept : Concept collator) :
    Except TaskError (Option Answer) :=
  match concept.topBelief with
  | none => .ok none
  | some belief =>
    if expectation belief.truth ≤ 1 / 2 then .ok none
    else do
      let task ← createTaskFromBelief concept belief
      .ok (some
        { question := serializeTerm question
          answer := some (serializeTerm question)
          truth := some belief.truth
          evidence := [task]
          derivationLineage := some (lineage belief.stamp) })

def evidenceFor (concept : Concept collator) : Except TaskError (List Task) :=
  match concept.topBelief with
  | none => .ok []
  | some belief => do
    let task ← createTaskFromBelief concept belief
    .ok [task]

/-- The evidence of concepts, in their order. -/
def adjacent : List (Concept collator) → Except TaskError (List Task)
  | [] => .ok []
  | concept :: rest => do
    let first ← evidenceFor concept
    let others ← adjacent rest
    .ok (first ++ others)

/-- The call that asks whether a question unifies with a term. -/
def unifyCall (question term : Term) : Call Term :=
  termCall question term .empty true api.identical

/-- The first concept with a belief whose term unifies with the question. -/
def findGrounded (question : Term) :
    List (Concept collator) → Unifier Term → Option (Concept collator) × Unifier Term
  | [], unifier => (none, unifier)
  | concept :: rest, unifier =>
    if concept.topBelief.isSome then
      match unifier.unify (narseseDialect collator) (api.unifyCall question concept.term) with
      | (some _, next) => (some concept, next)
      | (none, next) => findGrounded question rest next
    else findGrounded question rest unifier

/-- The answer to a term from the similar concepts. -/
def askNeighbours (questionStr : String) (questionTerm : Term) (unifier : Unifier Term) :
    Except TaskError (Answer × Unifier Term) := do
  let neighbours := api.findSimilarConcepts questionTerm neighbourLimit
  let evidence ← adjacent neighbours
  let (grounded, next) :=
    if hasVariable questionTerm then api.findGrounded questionTerm neighbours unifier
    else (none, unifier)
  match grounded with
  | none => .ok ({ question := questionStr, evidence := evidence }, next)
  | some concept =>
    match concept.topBelief with
    | none => .ok ({ question := questionStr, evidence := evidence }, next)
    | some belief =>
      .ok
        ({ question := questionStr
           answer := some (serializeTerm concept.term)
           truth := some belief.truth
           evidence := evidence
           derivationLineage := some (lineage belief.stamp) }, next)

/-- The answer to a term: from its own concept, or else from the similar ones. -/
def askTerm (questionStr : String) (questionTerm : Term) (unifier : Unifier Term) :
    Except TaskError (Answer × Unifier Term) :=
  match api.memory.getConcept questionTerm with
  | none => api.askNeighbours questionStr questionTerm unifier
  | some exact => do
    match ← tryAnswer questionTerm exact with
    | some answer => .ok (answer, unifier)
    | none => api.askNeighbours questionStr questionTerm unifier

/-- The text of a question and the term it asks about, if it is one. -/
def readQuestion : Question → String × Option Term
  | .text question => (question, api.parseQuestion question)
  | .term question => (serializeTerm question, some question)

def ask (question : Question) (unifier : Unifier Term) : Except TaskError (Answer × Unifier Term) :=
  match api.readQuestion question with
  | (questionStr, none) =>
    .ok ({ question := questionStr, confidence := some 0, evidence := [] }, unifier)
  | (questionStr, some questionTerm) => api.askTerm questionStr questionTerm unifier

end QueryApi

end Senars.Query
