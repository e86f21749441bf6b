/-
This file is what an answer is worth. A belief of the asked term itself is given
out if more is expected of it than of no belief; else a similar concept answers
whose term unifies with the question, which for a term without variables says that
it is an instance. Both directions hold on what the search returned.

The unifier's memo answers for what it was asked only if its keys tell the calls
apart, so that is asked of the calls before and of the question's own.
-/

import Senars.Query.Api

namespace Senars.Query

open Library Terms Unify Senars.Algebra

section Api

variable {collator : Collator} (api : QueryApi collator)

/-! ### Evidence -/

theorem createTaskFromBelief_ok (concept : Concept collator) (belief : TopBelief) :
    ∃ task, QueryApi.createTaskFromBelief concept belief = .ok task :=
  canonicalTask_ok concept.built.canonical

theorem evidenceFor_ok (concept : Concept collator) :
    ∃ tasks, QueryApi.evidenceFor concept = .ok tasks := by
  unfold QueryApi.evidenceFor
  cases concept.topBelief with
  | none => exact ⟨[], rfl⟩
  | some belief =>
    obtain ⟨task, made⟩ := createTaskFromBelief_ok concept belief
    exact ⟨[task], by simp only [made]; rfl⟩

theorem adjacent_ok (concepts : List (Concept collator)) :
    ∃ tasks, QueryApi.adjacent concepts = .ok tasks := by
  induction concepts with
  | nil => exact ⟨[], rfl⟩
  | cons concept rest ih =>
    obtain ⟨first, firstMade⟩ := evidenceFor_ok concept
    obtain ⟨others, othersMade⟩ := ih
    exact ⟨first ++ others, by simp only [QueryApi.adjacent, firstMade, othersMade]; rfl⟩

/-! ### The search among similar concepts -/

/-- Among some calls and all that were made before, equal memo keys are equal calls. -/
def KeysTellApart (collator : Collator) (history calls : List (Call Term)) : Prop :=
  ∀ call ∈ calls, ∀ stored ∈ history ++ calls,
    stored.memoKey (narseseDialect collator) = call.memoKey (narseseDialect collator) →
      SameInputs stored call

/-- The calls a question makes of concepts. -/
def unifyCalls (question : Term) (concepts : List (Concept collator)) : List (Call Term) :=
  concepts.map fun concept => api.unifyCall question concept.term

variable {api}

theorem KeysTellApart.rest {history rest call}
    (apart : KeysTellApart collator history (call :: rest)) :
    KeysTellApart collator history rest ∧ KeysTellApart collator (history ++ [call]) rest := by
  have inner : ∀ stored, stored ∈ history ∨ stored = call ∨ stored ∈ rest →
      stored ∈ history ++ call :: rest := by
    intro stored inside
    rw [List.mem_append, List.mem_cons]
    exact inside
  refine ⟨fun other member stored inside => ?_, fun other member stored inside => ?_⟩
  · refine apart other (List.mem_cons_of_mem _ member) stored (inner stored ?_)
    exact (List.mem_append.mp inside).imp_right .inr
  · refine apart other (List.mem_cons_of_mem _ member) stored (inner stored ?_)
    rcases List.mem_append.mp inside with earlier | later
    · rcases List.mem_append.mp earlier with old | new
      · exact .inl old
      · exact .inr (.inl (List.mem_singleton.mp new))
    · exact .inr (.inr later)

variable {history : List (Call Term)} {unifier : Unifier Term}

theorem KeysTellApart.answers {rest call} (apart : KeysTellApart collator history (call :: rest))
    (origin : MemoFrom (narseseDialect collator) history unifier) :
    MemoAnswers (narseseDialect collator) unifier call :=
  memoAnswers_of_faithful origin fun _ _ _ _ stored member _ same =>
    apart call List.mem_cons_self stored (List.mem_append_left _ member) same

theorem findGrounded_sound {question concepts concept}
    (origin : MemoFrom (narseseDialect collator) history unifier)
    (apart : KeysTellApart collator history (unifyCalls api question concepts))
    (found : (api.findGrounded question concepts unifier).1 = some concept) :
    concept ∈ concepts ∧ concept.topBelief.isSome ∧
      (VariableFree concept.term → Instance question concept.term) := by
  induction concepts generalizing history unifier with
  | nil => cases found
  | cons head rest ih =>
    have later : ∀ {past : List (Call Term)} {next : Unifier Term},
        MemoFrom (narseseDialect collator) past next →
        KeysTellApart collator past (unifyCalls api question rest) →
        (api.findGrounded question rest next).1 = some concept →
        concept ∈ head :: rest ∧ concept.topBelief.isSome ∧
          (VariableFree concept.term → Instance question concept.term) :=
      fun nextOrigin nextApart nextFound =>
        (ih nextOrigin nextApart nextFound).imp_left (List.mem_cons_of_mem _)
    rw [QueryApi.findGrounded] at found
    split at found
    · rename_i believed
      have nextOrigin := origin.unify (api.unifyCall question head.term)
      split at found
      · rename_i result next unified
        cases found
        refine ⟨List.mem_cons_self, believed, fun free => ?_⟩
        exact instance_of_unify (apart.answers origin) api.identical_sound free
          (congrArg Prod.fst unified)
      · rename_i next unified
        rw [unified] at nextOrigin
        exact later nextOrigin apart.rest.2 found
    · exact later origin apart.rest.1 found

theorem findGrounded_complete {question concepts concept}
    (origin : MemoFrom (narseseDialect collator) history unifier)
    (apart : KeysTellApart collator history (unifyCalls api question concepts))
    (member : concept ∈ concepts) (believed : concept.topBelief.isSome)
    (free : VariableFree concept.term) (shallow : termDepth concept.term < maxDepth)
    (isInstance : Instance question concept.term) :
    ∃ grounded, (api.findGrounded question concepts unifier).1 = some grounded := by
  induction concepts generalizing history unifier with
  | nil => exact absurd member List.not_mem_nil
  | cons head rest ih =>
    rw [QueryApi.findGrounded]
    split
    · have nextOrigin := origin.unify (api.unifyCall question head.term)
      split
      · exact ⟨head, rfl⟩
      · rename_i next unified
        rw [unified] at nextOrigin
        rcases List.mem_cons.mp member with rfl | later
        · obtain ⟨result, succeeded⟩ :=
            unify_of_instance (apart.answers origin) free shallow isInstance
          exact absurd (succeeded.symm.trans (congrArg Prod.fst unified)) (by simp)
        · exact ih nextOrigin apart.rest.2 later
    · rename_i unbelieved
      rcases List.mem_cons.mp member with rfl | later
      · exact absurd believed unbelieved
      · exact ih origin apart.rest.1 later

/-! ### Answers -/

variable (api)

/-- The answer is the asked term: a concept of its key holds it for its strongest belief, from
which more than nothing is expected. -/
def AnswersItself (asked : Term) (answer : Answer) : Prop :=
  ∃ concept belief, api.memory.Resident concept ∧ termKey concept.term = termKey asked ∧
    concept.topBelief = some belief ∧ 1 / 2 < expectation belief.truth ∧
    answer.answer = some (serializeTerm asked) ∧ answer.truth = some belief.truth

/-- The answer is the term of a similar concept, which holds a strongest belief; if that term has
no variable, it is an instance of the asked one. -/
def AnswersSimilar (asked : Term) (answer : Answer) : Prop :=
  hasVariable asked = true ∧
    ∃ concept ∈ api.findSimilarConcepts asked neighbourLimit, ∃ belief,
      api.memory.Resident concept ∧ concept.topBelief = some belief ∧
      (VariableFree concept.term → Instance asked concept.term) ∧
      answer.answer = some (serializeTerm concept.term) ∧ answer.truth = some belief.truth

/-- The asked term's own concept believes it. -/
def BelievedItself (asked : Term) : Prop :=
  ∃ concept belief, api.memory.getConcept asked = some concept ∧
    concept.topBelief = some belief ∧ 1 / 2 < expectation belief.truth

/-- A similar concept believes an instance without variables that the unifier's depth admits. -/
def InstanceAtHand (asked : Term) : Prop :=
  hasVariable asked = true ∧
    ∃ concept ∈ api.findSimilarConcepts asked neighbourLimit, concept.topBelief.isSome ∧
      VariableFree concept.term ∧ termDepth concept.term < maxDepth ∧ Instance asked concept.term

variable {api}

theorem tryAnswer_ok (asked : Term) (concept : Concept collator) :
    ∃ result, QueryApi.tryAnswer asked concept = .ok result ∧
      (∀ answer, result = some answer → ∃ belief, concept.topBelief = some belief ∧
        1 / 2 < expectation belief.truth ∧ answer.answer = some (serializeTerm asked) ∧
        answer.truth = some belief.truth) ∧
      (result = none → ∀ belief, concept.topBelief = some belief →
        expectation belief.truth ≤ 1 / 2) := by
  unfold QueryApi.tryAnswer
  cases believed : concept.topBelief with
  | none =>
    exact ⟨none, rfl, fun _ same => absurd same (by simp), fun _ _ same => absurd same (by simp)⟩
  | some belief =>
    by_cases low : expectation belief.truth ≤ 1 / 2
    · refine ⟨none, if_pos low, fun _ same => absurd same (by simp), fun _ other same => ?_⟩
      exact Option.some.inj same ▸ low
    · obtain ⟨task, made⟩ := createTaskFromBelief_ok concept belief
      simp only [if_neg low, made]
      refine ⟨_, rfl, fun answer same => ?_, fun same => absurd same (by simp)⟩
      exact ⟨belief, rfl, lt_of_not_ge low, Option.some.inj same ▸ rfl, Option.some.inj same ▸ rfl⟩

theorem askNeighbours_ok (questionStr : String) {asked}
    (origin : MemoFrom (narseseDialect collator) history unifier)
    (apart : KeysTellApart collator history
      (unifyCalls api asked (api.findSimilarConcepts asked neighbourLimit))) :
    ∃ answer next, api.askNeighbours questionStr asked unifier = .ok (answer, next) ∧
      (answer.answer.isSome → AnswersSimilar api asked answer) ∧
      (InstanceAtHand api asked → answer.answer.isSome) := by
  obtain ⟨evidence, evidenceMade⟩ := adjacent_ok (api.findSimilarConcepts asked neighbourLimit)
  unfold QueryApi.askNeighbours
  simp only [evidenceMade, Bind.bind, Except.bind]
  by_cases openQuestion : hasVariable asked = true
  · rw [if_pos openQuestion]
    cases found : (api.findGrounded asked (api.findSimilarConcepts asked neighbourLimit)
        unifier).1 with
    | none =>
      refine ⟨_, _, rfl, fun answered => absurd answered (by simp), ?_⟩
      rintro ⟨-, concept, member, believed, free, shallow, isInstance⟩
      obtain ⟨grounded, other⟩ :=
        findGrounded_complete origin apart member believed free shallow isInstance
      exact absurd (found.symm.trans other) (by simp)
    | some concept =>
      obtain ⟨member, believed, isInstance⟩ := findGrounded_sound origin apart found
      obtain ⟨belief, top⟩ := Option.isSome_iff_exists.mp believed
      simp only [top]
      exact ⟨_, _, rfl, fun _ => ⟨openQuestion, concept, member, belief,
        api.resident asked _ concept member, top, isInstance, rfl, rfl⟩, fun _ => rfl⟩
  · rw [if_neg openQuestion]
    exact ⟨_, _, rfl, fun answered => absurd answered (by simp),
      fun atHand => absurd atHand.1 openQuestion⟩

end Api

/-! ### A memory of one concept -/

/-- A concept that believes birds to be animals. -/
def birdConcept : Concept codePointCollator where
  term := .compound .inheritance [.atom "bird", .atom "animal"]
  built := by
    refine .compound .inheritance [.atom "bird", .atom "animal"] _ (fun arg member => ?_)
      (by decide)
    rcases List.mem_cons.mp member with rfl | rest
    · exact .atom "bird" _ (by decide)
    · rw [List.mem_singleton.mp rest]
      exact .atom "animal" _ (by decide)
  priority := 1
  beliefBag :=
    [{ term := .compound .inheritance [.atom "bird", .atom "animal"]
       truth := some (normalizeTruth 1 (.finite (9 / 10)))
       stamp := .createInput "bird" }]

/-- The memory of that concept. -/
def birdMemory : Memory codePointCollator where
  concepts := OrderedMap.empty.set (termKey birdConcept.term) birdConcept
  keyed entry member := by
    obtain rfl := List.mem_singleton.mp member
    rfl

/-- A query interface over that memory, whose search shows some of it. -/
def birdApi (shown : List (Concept codePointCollator))
    (resident : ∀ concept ∈ shown, birdMemory.Resident concept) : QueryApi codePointCollator where
  memory := birdMemory
  findSimilarConcepts _ limit := shown.take limit
  atMost _ limit := List.length_take_le limit shown
  resident _ _ concept member := resident concept (List.mem_of_mem_take member)
  parseQuestion _ := none
  identical left right := decide (left = right)
  identical_sound _ _ same := of_decide_eq_true same

/-- What is an animal? -/
def whatIsAnimal : Term := .compound .inheritance [.atom "?x", .atom "animal"]

theorem birdConcept_topBelief : birdConcept.topBelief =
    some ⟨normalizeTruth 1 (.finite (9 / 10)), .createInput "bird"⟩ := rfl

theorem birdConcept_expected :
    1 / 2 < expectation (normalizeTruth 1 (.finite (9 / 10))) := by
  have f : (normalizeTruth 1 (.finite (9 / 10))).f = 1 :=
    normalizeTruth_f zero_le_one (le_refl 1) _
  have c : (normalizeTruth 1 (.finite (9 / 10))).c = 9 / 10 :=
    normalizeTruth_c _ (by norm_num) (by norm_num [maxConfidence])
  rw [expectation, f, c]
  norm_num

theorem whatIsAnimal_instance : Instance whatIsAnimal birdConcept.term :=
  ⟨fun _ => some (.atom "bird"), by decide⟩

theorem birdConcept_resident : birdMemory.Resident birdConcept := List.mem_singleton.mpr rfl

end Senars.Query
