/-
This file is about counting evidence once. The guard against adding a belief again compares
it with the belief the concept has, which other beliefs may have revised since. A belief
that is added again after that is revised in again, and its evidence counts twice, unless it
has none, or the belief is as confident as can be.
-/

import Senars.Memory.Tasks

namespace Senars.Memory

open Library Bag PriorityBag Terms Senars.Algebra

/-! ### The beliefs of a concept -/

theorem items_remove {Item} [DecidableEq Item] (priority : Item → ℚ) (idOf : Item → String)
    (bag : PriorityBag Item) (item : Item) :
    (remove priority idOf bag (.inr item)).2.items = bag.items.erase item := by
  have erased : bag.items.erase item =
      (bag.list.eraseP fun entry => decide (entry.item = item)).map (·.item) := by
    rw [List.erase_eq_eraseP', items, List.eraseP_map]
    rfl
  have sameIndex : indexOf idOf bag (.inr item) =
      bag.list.findIdx? fun entry => decide (entry.item = item) := rfl
  rw [erased, List.eraseP_eq_eraseIdx]
  unfold remove
  rw [sameIndex]
  cases found : bag.list.findIdx? fun entry => decide (entry.item = item) with
  | none => rfl
  | some index =>
    have within := (List.findIdx?_eq_some_iff_getElem.mp found).1
    have dropped : (dropAt priority bag index).items =
        (bag.list.eraseIdx index).map (·.item) := by
      unfold dropAt
      rw [List.getElem?_eq_getElem within]
      rfl
    exact dropped

theorem capacity_remove {Item} [DecidableEq Item] (priority : Item → ℚ) (idOf : Item → String)
    (bag : PriorityBag Item) (idOrItem : String ⊕ Item) :
    (remove priority idOf bag idOrItem).2.capacity = bag.capacity := by
  unfold remove
  cases indexOf idOf bag idOrItem with
  | none => rfl
  | some index =>
    simp only [dropAt]
    cases bag.list[index]? <;> rfl

/-- A bag that represents its beliefs and has no two of them about one term. -/
structure Distinct (bag : PriorityBag TaskData) : Prop where
  represents : Represents TaskData.priority bag
  nodup : (bag.items.map fun item => termKey item.term).Nodup

namespace Distinct

variable {bag : PriorityBag TaskData} {item : TaskData}

theorem eq_of_key (distinct : Distinct bag) {other} (member : item ∈ bag.items)
    (otherMember : other ∈ bag.items) (same : termKey item.term = termKey other.term) :
    item = other :=
  List.inj_on_of_nodup_map distinct.nodup member otherMember same

theorem find_iff (distinct : Distinct bag) {term} :
    (bag.items.find? fun item => decide (termKey item.term = termKey term)) = some item ↔
      item ∈ bag.items ∧ termKey item.term = termKey term := by
  constructor
  · intro found
    have same := List.find?_some found
    exact ⟨List.mem_of_find?_eq_some found, by simpa using same⟩
  · rintro ⟨member, same⟩
    cases found : bag.items.find? fun item => decide (termKey item.term = termKey term) with
    | none =>
      have different := List.find?_eq_none.mp found item member
      simp [same] at different
    | some other =>
      have otherSame := List.find?_some found
      rw [decide_eq_true_iff] at otherSame
      rw [distinct.eq_of_key member (List.mem_of_find?_eq_some found)
        (same.trans otherSame.symm)]

theorem remove (distinct : Distinct bag) (member : item ∈ bag.items) :
    Distinct (PriorityBag.remove TaskData.priority TaskData.id bag (.inr item)).2 ∧
      ∀ other ∈ (PriorityBag.remove TaskData.priority TaskData.id bag (.inr item)).2.items,
        other ∈ bag.items ∧ termKey other.term ≠ termKey item.term := by
  have part : (bag.items.erase item).Sublist bag.items := List.erase_sublist
  rw [items_remove]
  refine ⟨⟨distinct.represents.remove _ _, ?_⟩, ?_⟩
  · rw [items_remove]
    exact distinct.nodup.sublist (part.map _)
  · intro other isOther
    have inBag := part.subset isOther
    refine ⟨inBag, fun same => ?_⟩
    rw [distinct.eq_of_key inBag member same] at isOther
    exact distinct.nodup.of_map.not_mem_erase isOther

theorem add (distinct : Distinct bag) (now : ℚ)
    (fresh : ∀ other ∈ bag.items, termKey other.term ≠ termKey item.term) :
    Distinct (PriorityBag.add TaskData.priority bag item now).2 ∧
      ∀ other ∈ (PriorityBag.add TaskData.priority bag item now).2.items,
        other ∈ bag.items ∨ other = item := by
  have all := distinct.represents.items_add item now
  have perm := (byPriority TaskData.priority).toSorted_perm (bag.items ++ [item])
  refine ⟨⟨distinct.represents.add item now, ?_⟩, fun other member => ?_⟩
  · rw [all]
    refine List.Nodup.sublist ((List.take_sublist _ _).map _) ?_
    rw [(perm.map _).nodup_iff, List.map_append, List.nodup_append]
    refine ⟨distinct.nodup, List.nodup_singleton _, ?_⟩
    intro key isKey another isItem
    obtain ⟨other, isOther, rfl⟩ := List.mem_map.mp isKey
    rw [List.map_singleton, List.mem_singleton] at isItem
    rw [isItem]
    exact fresh other isOther
  · rw [all] at member
    have among := (List.mem_append.mp (perm.mem_iff.mp (List.mem_of_mem_take member)))
    exact among.imp_right List.mem_singleton.mp

end Distinct

theorem mem_add_of_room {bag} (represents : Represents TaskData.priority bag)
    (room : bag.items.length < bag.capacity) (item : TaskData) (now : ℚ) :
    (add TaskData.priority bag item now).1 = true ∧
      item ∈ (add TaskData.priority bag item now).2.items := by
  constructor
  · rw [length_items] at room
    rcases add_cases TaskData.priority bag item now with
      ⟨none | ⟨full, _⟩, _⟩ | ⟨_, admitted⟩ | ⟨_, _, full, _⟩
    · omega
    · omega
    · rw [admitted]
    · omega
  · rw [represents.items_add, List.take_of_length_le]
    · simp
    · rw [Comparison.length_toSorted, List.length_append]
      exact room

/-! ### What adding a belief does -/

/-- The belief a concept has about a term is without truth or told none, or told its own truth. -/
def KeepsTruth (existing : TaskData) (data : TaskInput) : Prop :=
  ∀ given held, data.truth = some given → existing.truth = some held →
    isTruthEqual given held truthIdentityEpsilon = true

namespace Concept

variable {concept : Concept TaskData} {data : TaskInput} {madeId : String} {now : ℚ}

theorem store_belief (concept : Concept TaskData) (bag : PriorityBag TaskData) (item : TaskData)
    (now : ℚ) :
    (concept.store .belief bag item now).1 = (add TaskData.priority bag item now).1 ∧
      (concept.store .belief bag item now).2.beliefBag =
        (add TaskData.priority bag item now).2 := by
  refine ⟨rfl, ?_⟩
  simp only [store]
  split <;> rfl

theorem addBelief_new (none : concept.findMatchingBelief data.term = none) :
    concept.addBeliefWithRevision data madeId now =
      concept.store .belief concept.beliefBag
        { data with id := madeId, priority := data.budget.priority } now := by
  rw [addBeliefWithRevision, none]

theorem addBelief_kept {existing} (found : concept.findMatchingBelief data.term = some existing)
    (keeps : KeepsTruth existing data) :
    (concept.addBeliefWithRevision data madeId now).2.beliefBag = concept.beliefBag := by
  rw [addBeliefWithRevision, found]
  simp only
  split
  · next given held isGiven isHeld =>
    rw [if_pos (keeps given held isGiven isHeld)]
    rfl
  · rfl

theorem addBelief_revised {existing given held}
    (found : concept.findMatchingBelief data.term = some existing)
    (isGiven : data.truth = some given) (isHeld : existing.truth = some held)
    (differs : isTruthEqual given held truthIdentityEpsilon = false) :
    concept.addBeliefWithRevision data madeId now =
      concept.store .belief
        (remove TaskData.priority TaskData.id concept.beliefBag (.inr existing)).2
        { data with
          id := existing.id
          priority := data.budget.priority
          truth := some (Truth.revision given held)
          timestamp := some now } now := by
  rw [addBeliefWithRevision, found]
  simp only [isGiven, isHeld, differs]
  rfl

end Concept

/-! ### What has been added -/

/-- What a belief says, and whose evidence it is. -/
structure Observation where
  term : Term
  truth : Option Truth
  stamp : Stamp
  deriving DecidableEq

def TaskInput.observation (data : TaskInput) : Observation := ⟨data.term, data.truth, data.stamp⟩

/-- The evidence of an observation about the term of a key. -/
def Observation.evidence (observation : Observation) (key : String) : ℚ :=
  if termKey observation.term = key then (observation.truth.map Truth.evidence).getD 0 else 0

theorem Observation.evidence_nonneg (observation : Observation) (key : String) :
    0 ≤ observation.evidence key := by
  unfold evidence
  split
  · cases observation.truth with
    | none => exact le_rfl
    | some truth => exact truth.evidence_nonneg
  · exact le_rfl

/-- The evidence there is about a term: that of each observation once. -/
def evidenceOf (added : List Observation) (key : String) : ℚ :=
  (added.dedup.map fun observation => observation.evidence key).sum

variable {added : List Observation}

theorem evidenceOf_new {observation} (new : observation ∉ added) (key : String) :
    evidenceOf (observation :: added) key = observation.evidence key + evidenceOf added key := by
  rw [evidenceOf, List.dedup_cons_of_notMem new, List.map_cons]
  rfl

theorem evidenceOf_again {observation} (again : observation ∈ added) (key : String) :
    evidenceOf (observation :: added) key = evidenceOf added key := by
  rw [evidenceOf, List.dedup_cons_of_mem again]
  rfl

theorem evidenceOf_le_cons (added : List Observation) (observation : Observation) (key : String) :
    evidenceOf added key ≤ evidenceOf (observation :: added) key := by
  by_cases again : observation ∈ added
  · rw [evidenceOf_again again]
  · rw [evidenceOf_new again]
    exact le_add_of_nonneg_left (observation.evidence_nonneg key)

theorem evidence_le_evidenceOf {observation} (member : observation ∈ added) (key : String) :
    observation.evidence key ≤ evidenceOf added key := by
  refine List.single_le_sum ?_ _ (List.mem_map_of_mem (List.mem_dedup.mpr member))
  intro evidence isEvidence
  obtain ⟨other, _, rfl⟩ := List.mem_map.mp isEvidence
  exact other.evidence_nonneg key

/-! ### Runs -/

/-- A concept and the observations that were added to it. -/
structure Believing where
  concept : Concept TaskData
  added : List Observation

/-- A belief to be added, with the identifier that is made and the time. -/
structure Addition where
  data : TaskInput
  madeId : String
  now : ℚ

def believe (state : Believing) (addition : Addition) : Believing :=
  let (accepted, left) :=
    state.concept.addTask .belief addition.data addition.madeId addition.now
  ⟨left, if accepted then addition.data.observation :: state.added else state.added⟩

def beliefStep : Machine Believing Addition := fun state addition => some (believe state addition)

def Concept.storedConfidence (concept : Concept TaskData) (term : Term) : Option ℚ :=
  ((concept.findMatchingBelief term).bind (·.truth)).map Truth.c

/-- A belief that is added again does not raise the confidence of the belief there is. -/
def NeverRaises (state : Believing) (addition : Addition) : Prop :=
  addition.data.observation ∈ state.added → ∀ before after,
    state.concept.storedConfidence addition.data.term = some before →
    (believe state addition).concept.storedConfidence addition.data.term = some after →
    after ≤ before

/-- No belief rests on more evidence than there is. -/
def CountsOnce (state : Believing) : Prop :=
  ∀ item ∈ state.concept.beliefBag.items, ∀ held, item.truth = some held →
    held.evidence ≤ evidenceOf state.added (termKey item.term)

/-- What is added again is the truth of the belief there is, or has no evidence, or the belief is as
confident as can be. -/
def AddsNothing (state : Believing) (addition : Addition) : Prop :=
  addition.data.observation ∈ state.added → ∀ existing given held,
    state.concept.findMatchingBelief addition.data.term = some existing →
    addition.data.truth = some given → existing.truth = some held →
    isTruthEqual given held truthIdentityEpsilon = true ∨ given.c = 0 ∨ held.c = maxConfidence

section

variable {state : Believing} {addition : Addition}

theorem evidenceOf_le_believe (state : Believing) (addition : Addition) (key : String) :
    evidenceOf state.added key ≤ evidenceOf (believe state addition).added key := by
  simp only [believe]
  split
  · exact evidenceOf_le_cons _ _ _
  · exact le_rfl

/-- What is true of a step. -/
structure Counted (state : Believing) (addition : Addition) : Prop where
  distinct : Distinct (believe state addition).concept.beliefBag
  agrees : NeverRaises state addition ↔ AddsNothing state addition
  once : AddsNothing state addition → CountsOnce (believe state addition)

section

variable (distinct : Distinct state.concept.beliefBag) (once : CountsOnce state)

include distinct once

theorem Counted.of_same
    (same : (believe state addition).concept.beliefBag = state.concept.beliefBag)
    (nothing : AddsNothing state addition) : Counted state addition where
  distinct := same.symm ▸ distinct
  agrees := by
    refine iff_of_true (fun _ before after isBefore isAfter => ?_) nothing
    have sameConfidence : (believe state addition).concept.storedConfidence addition.data.term =
        state.concept.storedConfidence addition.data.term := by
      rw [Concept.storedConfidence, Concept.findMatchingBelief, same]
      rfl
    rw [sameConfidence, isBefore] at isAfter
    exact (Option.some.inj isAfter).ge
  once := by
    intro _ item member held isHeld
    rw [same] at member
    exact (once item member held isHeld).trans (evidenceOf_le_believe _ _ _)

theorem Counted.of_new (none : state.concept.findMatchingBelief addition.data.term = none) :
    Counted state addition := by
  have nothing : AddsNothing state addition := by
    intro _ existing given held found
    rw [none] at found
    cases found
  let item : TaskData :=
    { addition.data with id := addition.madeId, priority := addition.data.budget.priority }
  have stored := Concept.store_belief state.concept state.concept.beliefBag item addition.now
  rw [← Concept.addBelief_new none] at stored
  have fresh : ∀ other ∈ state.concept.beliefBag.items,
      termKey other.term ≠ termKey item.term := by
    intro other member
    simpa using List.find?_eq_none.mp none other member
  obtain ⟨nextDistinct, among⟩ := distinct.add addition.now fresh
  have bag : (believe state addition).concept.beliefBag =
      (add TaskData.priority state.concept.beliefBag item addition.now).2 := stored.2
  cases accepted : (add TaskData.priority state.concept.beliefBag item addition.now).1 with
  | false => exact .of_same distinct once (bag.trans (add_refused accepted)) nothing
  | true =>
    have history : (believe state addition).added =
        addition.data.observation :: state.added :=
      if_pos (stored.1.trans accepted)
    refine ⟨bag.symm ▸ nextDistinct, iff_of_true ?_ nothing, fun _ other member held isHeld => ?_⟩
    · intro _ before after isBefore
      rw [Concept.storedConfidence, none] at isBefore
      cases isBefore
    · rw [bag] at member
      rcases among other member with old | rfl
      · exact (once other old held isHeld).trans (evidenceOf_le_believe _ _ _)
      · have own : held.evidence = addition.data.observation.evidence (termKey item.term) := by
          have isGiven : addition.data.truth = some held := isHeld
          simp [Observation.evidence, TaskInput.observation, isGiven, item]
        rw [own, history]
        exact evidence_le_evidenceOf List.mem_cons_self _

theorem Counted.of_revised {existing given held}
    (found : state.concept.findMatchingBelief addition.data.term = some existing)
    (isGiven : addition.data.truth = some given) (isHeld : existing.truth = some held)
    (differs : isTruthEqual given held truthIdentityEpsilon = false) : Counted state addition := by
  obtain ⟨inBag, sameKey⟩ := distinct.find_iff.mp found
  obtain ⟨removedDistinct, others⟩ := distinct.remove inBag
  let removed := (remove TaskData.priority TaskData.id state.concept.beliefBag (.inr existing)).2
  let item : TaskData :=
    { addition.data with
      id := existing.id
      priority := addition.data.budget.priority
      truth := some (Truth.revision given held)
      timestamp := some addition.now }
  have stored := Concept.store_belief state.concept removed item addition.now
  rw [← Concept.addBelief_revised found isGiven isHeld differs] at stored
  have fresh : ∀ other ∈ removed.items, termKey other.term ≠ termKey item.term :=
    fun other member same => (others other member).2 (same.trans sameKey.symm)
  obtain ⟨nextDistinct, among⟩ := removedDistinct.add addition.now fresh
  have room : removed.items.length < removed.capacity := by
    have fits := distinct.represents.fits
    rw [← length_items] at fits
    rw [items_remove, List.length_erase_of_mem inBag, capacity_remove]
    have positive := List.length_pos_of_mem inBag
    omega
  obtain ⟨accepted, inNext⟩ := mem_add_of_room removedDistinct.represents room item addition.now
  have bag : (believe state addition).concept.beliefBag =
      (add TaskData.priority removed item addition.now).2 := stored.2
  have history : (believe state addition).added = addition.data.observation :: state.added :=
    if_pos (stored.1.trans accepted)
  have before : state.concept.storedConfidence addition.data.term = some held.c := by
    rw [Concept.storedConfidence, found, Option.bind_some, isHeld, Option.map_some]
  have after : (believe state addition).concept.storedConfidence addition.data.term =
      some (Truth.revision given held).c := by
    have foundNext : (believe state addition).concept.findMatchingBelief addition.data.term =
        some item := by
      rw [Concept.findMatchingBelief, bag]
      exact nextDistinct.find_iff.mpr ⟨inNext, rfl⟩
    rw [Concept.storedConfidence, foundNext]
    rfl
  have quiet : AddsNothing state addition ↔
      (addition.data.observation ∈ state.added → (Truth.revision given held).c ≤ held.c) := by
    rw [← not_lt, lt_revision_c_iff, not_and_or, not_not, not_not]
    constructor
    · intro nothing again
      have low := nothing again existing given held found isGiven isHeld
      rw [differs] at low
      exact low.resolve_left Bool.false_ne_true
    · intro low again existing' given' held' found' isGiven' isHeld'
      cases found.symm.trans found'
      cases isGiven.symm.trans isGiven'
      cases isHeld.symm.trans isHeld'
      exact .inr (low again)
  refine ⟨bag.symm ▸ nextDistinct, ?_, fun nothing other member truth isTruth => ?_⟩
  · rw [quiet]
    constructor
    · intro never again
      exact never again _ _ before after
    · intro low again first second isFirst isSecond
      cases before.symm.trans isFirst
      cases after.symm.trans isSecond
      exact low again
  rw [bag] at member
  rcases among other member with old | rfl
  · exact (once other (others other old).1 truth isTruth).trans (evidenceOf_le_believe _ _ _)
  cases isTruth
  have heldEvidence := once existing inBag held isHeld
  rw [history]
  rw [← sameKey]
  by_cases again : addition.data.observation ∈ state.added
  · have low : (Truth.revision given held).evidence ≤ held.evidence := by
      rw [Truth.evidence, Truth.evidence, ← not_lt,
        weight_lt_weight_iff held.c_lt_one (Truth.c_lt_one _), not_lt]
      exact quiet.mp nothing again
    rw [evidenceOf_again again]
    exact low.trans heldEvidence
  · have own : addition.data.observation.evidence (termKey existing.term) = given.evidence := by
      simp [Observation.evidence, TaskInput.observation, isGiven, sameKey]
    rw [evidenceOf_new again, own, evidence_revision]
    exact (min_le_left _ _).trans (add_le_add_right heldEvidence _)

theorem counted : Counted state addition := by
  cases found : state.concept.findMatchingBelief addition.data.term with
  | none => exact .of_new distinct once found
  | some existing =>
    by_cases keeps : KeepsTruth existing addition.data
    · refine .of_same distinct once (Concept.addBelief_kept found keeps) ?_
      intro _ existing' given held found' isGiven isHeld
      cases found.symm.trans found'
      exact .inl (keeps given held isGiven isHeld)
    · rw [KeepsTruth] at keeps
      push Not at keeps
      obtain ⟨given, held, isGiven, isHeld, differs⟩ := keeps
      exact .of_revised distinct once found isGiven isHeld (Bool.eq_false_of_not_eq_true differs)

end

end

theorem distinct_newConcept (maxBeliefs maxGoals maxQuestions : ℕ) :
    Distinct (newConcept maxBeliefs maxGoals maxQuestions).beliefBag :=
  ⟨⟨.nil, Nat.zero_le _, rfl⟩, .nil⟩

def truthOf (f c : ℚ) : Truth := normalizeTruth (.finite f) (.finite c)

/-- Tell a concept that there are birds, or not. -/
def telling (f : ℚ) (source : String) : Addition :=
  ⟨⟨.atom "bird", some (truthOf f (1 / 2)), { priority := 1 / 2 }, none, ⟨source, []⟩, none, none⟩,
    "task", 0⟩

end Senars.Memory
