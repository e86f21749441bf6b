/-
This file proves when a memory comes back from its dump. What a record leaves out does not
come back: an occurrence time, that there was no truth, and the priority a task has in its
bag, where its budget has another one.
-/

import Senars.Memory.Coherence
import Senars.Memory.Revision
import Senars.Memory.Snapshot

namespace Senars.Memory

open Library Bag PriorityBag Terms Senars.Algebra

/-! ### What a task says -/

/-- What is told of a task beside its priority. -/
structure Claim where
  term : Term
  truth : Option Truth
  stamp : Stamp
  occurrenceTime : Option ℚ
  deriving DecidableEq

def TaskInput.claim (data : TaskInput) : Claim :=
  ⟨data.term, data.truth, data.stamp, data.occurrenceTime⟩

/-- What is told of the tasks of a bag, in order, and their priorities. -/
def toldOf (bag : PriorityBag TaskData) : List (Claim × ℚ) :=
  bag.items.map fun item => (item.claim, item.priority)

/-- A term that is not the negation of anything but a negation. -/
def isPlain (term : Term) : Bool :=
  !(decide (term.kind? = some .negation) &&
    ((getArgs term).head?.bind Term.kind?) != some .negation)

/-- A claim a record can tell: it has a truth and no time, and its term is not negated. -/
structure Claim.Tellable (claim : Claim) : Prop where
  truth : claim.truth ≠ none
  occurrenceTime : claim.occurrenceTime = none
  plain : isPlain claim.term = true

variable {surroundings : Surroundings}

/-! ### Making the task of a record -/

/-- A term is read as it was written. -/
def ReadsBack (surroundings : Surroundings) (term : Term) : Prop :=
  ∃ ref, surroundings.parse (surroundings.toText term) = some ref ∧ ref.term = term

theorem applies_eq (task : Query.Task) :
    Query.negationIntoTruth.applies task = !isPlain task.term := by
  simp [Query.negationIntoTruth, isPlain]

theorem isPlain_settleTask {collator original remaining task made}
    (settled : Query.settleTask collator original remaining task = .ok made) :
    isPlain made.term = true := by
  induction remaining generalizing task with
  | zero => cases settled
  | succ remaining ih =>
    cases plain : isPlain task.term with
    | true =>
      have quiet := applies_eq task
      rw [plain] at quiet
      rw [Query.settleTask_of_not_applies original remaining quiet] at settled
      cases settled
      exact plain
    | false =>
      rw [Query.settleTask] at settled
      cases passed : Query.taskPass Query.taskReducers task with
      | error error =>
        rw [passed] at settled
        cases settled
      | ok next =>
        rw [passed] at settled
        cases next with
        | none =>
          have works := applies_eq task
          rw [plain] at works
          simp [Query.taskReducers, Query.taskPass, works, bind, Except.bind] at passed
          split at passed <;> cases passed
        | some next =>
          simp only [bind, Except.bind] at settled
          split at settled
          · cases settled
          · exact ih settled

theorem tellable_of_rehydrateTask {record task}
    (made : rehydrateTask surroundings record = .ok (some task)) : isPlain task.term = true := by
  unfold rehydrateTask at made
  split at made
  · cases made
  · simp only at made
    cases canonical : Query.canonicalTask surroundings.collator _ with
    | error error =>
      rw [canonical] at made
      cases made
    | ok settled =>
      rw [canonical] at made
      cases made
      exact isPlain_settleTask canonical

/-- The task that comes back. -/
def comeBack (item : TaskData) : TaskInput where
  term := item.term
  truth := some (item.truth.getD Rules.neutralTruth)
  budget := createTaskWeight item.budget.priority
  stamp := item.stamp

theorem rehydrateTask_serializeTask {item} (readsBack : ReadsBack surroundings item.term)
    (plain : isPlain item.term = true) :
    ∃ task, rehydrateTask surroundings (serializeTask surroundings item) = .ok (some task) ∧
      comeBack item =
        { term := task.term, truth := some task.truth, budget := task.budget
          stamp := task.stamp } := by
  obtain ⟨ref, parsed, sameTerm⟩ := readsBack
  rw [← sameTerm] at plain
  let task : Query.Task :=
    { term := ref.term
      truth := item.truth.getD Rules.neutralTruth
      priority := .finite item.budget.priority
      stamp := item.stamp }
  have quiet := applies_eq task
  rw [show isPlain task.term = true from plain] at quiet
  have canonical : Query.canonicalTask surroundings.collator task = .ok task :=
    Query.settleTask_of_not_applies _ _ quiet
  unfold rehydrateTask
  have written : surroundings.parse (serializeTask surroundings item).term = some ref := parsed
  rw [written]
  refine ⟨_, congrArg (Except.map _) canonical, ?_⟩
  rw [comeBack, ← sameTerm]
  rfl

/-! ### Adding to one bag -/

def freshConcept : Concept TaskData := newConcept 100 50 20

def keysOf (items : List TaskData) : List String := items.map fun item => termKey item.term

section

variable {concept : Concept TaskData} {kind : TaskKind} {data : TaskInput} {madeId : String}
  {now : ℚ}

@[simp] theorem bag_recordAccess (concept : Concept TaskData) (kind : TaskKind) :
    concept.recordAccess.bag kind = concept.bag kind := by
  cases kind <;> rfl

@[simp] theorem bag_withBag (concept : Concept TaskData) (kind : TaskKind)
    (bag : PriorityBag TaskData) : (concept.withBag kind bag).bag kind = bag := by
  cases kind <;> rfl

variable {other : TaskKind}

theorem bag_withBag_of_ne (concept : Concept TaskData) {kind} (different : other ≠ kind)
    (bag : PriorityBag TaskData) : (concept.withBag kind bag).bag other = concept.bag other := by
  cases kind <;> cases other <;> first | rfl | exact absurd rfl different

theorem bag_store (concept : Concept TaskData) (kind : TaskKind) (bag : PriorityBag TaskData)
    (item : TaskData) (now : ℚ) :
    (concept.store kind bag item now).2.bag kind = (add TaskData.priority bag item now).2 := by
  simp only [Concept.store]
  split <;> simp

theorem bag_store_of_ne (concept : Concept TaskData) {kind} (different : other ≠ kind)
    (bag : PriorityBag TaskData) (item : TaskData) (now : ℚ) :
    (concept.store kind bag item now).2.bag other = concept.bag other := by
  simp only [Concept.store]
  split
  · rw [bag_recordAccess, bag_withBag_of_ne _ different]
  · exact bag_withBag_of_ne _ different _

theorem bag_addTask_of_ne (different : other ≠ kind) :
    (concept.addTask kind data madeId now).2.bag other = concept.bag other := by
  cases kind with
  | belief =>
    unfold Concept.addTask Concept.addBeliefWithRevision
    simp only
    split
    · exact bag_store_of_ne _ different _ _ _
    · split
      · split
        · exact bag_recordAccess _ _
        · exact bag_store_of_ne _ different _ _ _
      · rfl
  | goal => exact bag_store_of_ne _ different _ _ _
  | question => exact bag_store_of_ne _ different _ _ _

/-- A bag as loading leaves it: its tasks were told by records, and no two beliefs are about one
term. -/
structure Restored (kind : TaskKind) (bag : PriorityBag TaskData) : Prop where
  represents : Represents TaskData.priority bag
  capacity : bag.capacity = (freshConcept.bag kind).capacity
  told : ∀ item ∈ bag.items, item.claim.Tellable
  apart : kind = .belief → (keysOf bag.items).Nodup

theorem mem_items_add {bag} (represents : Represents TaskData.priority bag) {item other}
    (member : other ∈ (add TaskData.priority bag item now).2.items) :
    other ∈ bag.items ∨ other = item := by
  rw [represents.items_add] at member
  have among := Comparison.mem_toSorted.mp (List.mem_of_mem_take member)
  exact (List.mem_append.mp among).imp_right List.mem_singleton.mp

theorem Restored.add {bag} (restored : Restored kind bag) {item} (tellable : item.claim.Tellable)
    (fresh : kind = .belief → ∀ other ∈ bag.items, termKey other.term ≠ termKey item.term)
    (now : ℚ) : Restored kind (PriorityBag.add TaskData.priority bag item now).2 := by
  refine ⟨restored.represents.add item now, ?_, ?_, ?_⟩
  · rw [Represents.capacity_add, restored.capacity]
  · intro other member
    rcases mem_items_add restored.represents member with old | rfl
    · exact restored.told other old
    · exact tellable
  · intro isBelief
    have distinct : Distinct bag := ⟨restored.represents, restored.apart isBelief⟩
    exact (distinct.add now (fresh isBelief)).1.nodup

theorem Restored.addTask (restored : Restored kind (concept.bag kind))
    (tellable : data.claim.Tellable) :
    Restored kind ((concept.addTask kind data madeId now).2.bag kind) := by
  cases kind with
  | belief =>
    have distinct : Distinct concept.beliefBag := ⟨restored.represents, restored.apart rfl⟩
    unfold Concept.addTask Concept.addBeliefWithRevision
    simp only
    split
    · next nothing =>
      rw [bag_store]
      refine restored.add tellable (fun _ other member same => ?_) now
      have different := List.find?_eq_none.mp nothing other member
      exact different (decide_eq_true same)
    · next existing found =>
      obtain ⟨member, sameKey⟩ := distinct.find_iff.mp found
      split
      · next given held isGiven isHeld =>
        split
        · rw [bag_recordAccess]
          exact restored
        · obtain ⟨without, others⟩ := distinct.remove member
          have restoredWithout : Restored .belief
              (remove TaskData.priority TaskData.id concept.beliefBag (.inr existing)).2 := by
            refine ⟨without.represents, ?_, ?_, fun _ => without.nodup⟩
            · rw [capacity_remove]
              exact restored.capacity
            · intro other isOther
              exact restored.told other (others other isOther).1
          rw [bag_store]
          refine restoredWithout.add ⟨?_, tellable.occurrenceTime, tellable.plain⟩ ?_ now
          · exact Option.some_ne_none _
          · intro _ other isOther
            rw [← sameKey]
            exact (others other isOther).2
      · exact restored
  | goal =>
    unfold Concept.addTask
    rw [bag_store]
    exact restored.add tellable (fun isBelief => by cases isBelief) now
  | question =>
    unfold Concept.addTask
    rw [bag_store]
    exact restored.add tellable (fun isBelief => by cases isBelief) now

theorem bag_addTask_of_fresh
    (fresh : kind = .belief →
      ∀ other ∈ (concept.bag kind).items, termKey other.term ≠ termKey data.term) :
    (concept.addTask kind data madeId now).2.bag kind =
      (add TaskData.priority (concept.bag kind)
        { data with id := madeId, priority := data.budget.priority } now).2 := by
  cases kind with
  | belief =>
    have nothing : concept.findMatchingBelief data.term = none :=
      List.find?_eq_none.mpr fun other member => by simpa using fresh rfl other member
    unfold Concept.addTask
    rw [Concept.addBelief_new nothing]
    exact bag_store _ _ _ _ _
  | goal => exact bag_store _ _ _ _ _
  | question => exact bag_store _ _ _ _ _

end

/-! ### Restoring one bag -/

section

variable {kind : TaskKind} {cell : ConceptCell}

/-- All bags are as loading leaves them. -/
def AllRestored (concept : Concept TaskData) : Prop := ∀ kind, Restored kind (concept.bag kind)

theorem AllRestored.addTask {concept} (restored : AllRestored concept) {data}
    (tellable : data.claim.Tellable) (kind : TaskKind) (madeId : String) (now : ℚ) :
    AllRestored (concept.addTask kind data madeId now).2 := by
  intro other
  by_cases same : other = kind
  · subst same
    exact (restored other).addTask tellable
  · rw [bag_addTask_of_ne same]
    exact restored other

theorem AllRestored.restoreBag (restored : AllRestored cell.concept) (records : List TaskRecord) :
    AllRestored (restoreBag surroundings kind cell records).2.concept := by
  induction records generalizing cell with
  | nil => exact restored
  | cons record rest ih =>
    unfold Memory.restoreBag
    split
    · exact restored
    · exact ih restored
    · next task made =>
      refine ih (restored.addTask ⟨?_, rfl, ?_⟩ _ _ _)
      · exact Option.some_ne_none _
      · exact tellable_of_rehydrateTask made

theorem bag_restoreBag_of_ne {other} (different : other ≠ kind) (records : List TaskRecord) :
    (restoreBag surroundings kind cell records).2.concept.bag other = cell.concept.bag other := by
  induction records generalizing cell with
  | nil => rfl
  | cons record rest ih =>
    unfold restoreBag
    split
    · rfl
    · exact ih
    · rw [ih]
      exact bag_addTask_of_ne different

/-- The task of a bag that a record of another one becomes. -/
def comeBackTask (surroundings : Surroundings) (item : TaskData) : TaskData :=
  { comeBack item with
    id := surroundings.madeId (serializeTask surroundings item)
    priority := item.budget.priority }

theorem restoreBag_eq {done left} (readsBack : ∀ item ∈ left, ReadsBack surroundings item.term)
    (plain : ∀ item ∈ left, isPlain item.term = true)
    (apart : kind = .belief → (keysOf (done ++ left)).Nodup)
    (represents : Represents TaskData.priority (cell.concept.bag kind))
    (room : (done ++ left).length ≤ (cell.concept.bag kind).capacity)
    (before : (cell.concept.bag kind).items =
      (byPriority TaskData.priority).toSorted (done.map (comeBackTask surroundings))) :
    (restoreBag surroundings kind cell (left.map (serializeTask surroundings))).1 = true ∧
      ((restoreBag surroundings kind cell
          (left.map (serializeTask surroundings))).2.concept.bag kind).items =
        (byPriority TaskData.priority).toSorted
          ((done ++ left).map (comeBackTask surroundings)) := by
  induction left generalizing cell done with
  | nil =>
    rw [List.append_nil]
    exact ⟨rfl, before⟩
  | cons item left ih =>
    obtain ⟨itemReadsBack, readsBack⟩ := List.forall_mem_cons.mp readsBack
    obtain ⟨itemPlain, plain⟩ := List.forall_mem_cons.mp plain
    obtain ⟨task, made, same⟩ := rehydrateTask_serializeTask itemReadsBack itemPlain
    have fresh : kind = .belief → ∀ other ∈ (cell.concept.bag kind).items,
        termKey other.term ≠ termKey item.term := by
      intro isBelief other member sameKey
      rw [before] at member
      obtain ⟨old, isOld, rfl⟩ := List.mem_map.mp (Comparison.mem_toSorted.mp member)
      have distinct := apart isBelief
      rw [keysOf, List.map_append, List.nodup_append] at distinct
      exact distinct.2.2 _ (List.mem_map_of_mem isOld) _
        (List.mem_map_of_mem List.mem_cons_self) sameKey
    have regrouped : done ++ item :: left = (done ++ [item]) ++ left := by
      rw [List.append_assoc, List.singleton_append]
    rw [regrouped] at apart room ⊢
    rw [List.map_cons]
    unfold restoreBag
    rw [made]
    simp only
    rw [← same]
    have added := @bag_addTask_of_fresh cell.concept kind (comeBack item)
      (surroundings.madeId (serializeTask surroundings item))
      (surroundings.taskTime (serializeTask surroundings item)) fresh
    refine ih readsBack plain apart ?_ ?_ ?_
    · rw [added]
      exact represents.add _ _
    · rw [added, Represents.capacity_add]
      exact room
    · rw [added, represents.items_add, before, Comparison.toSorted_toSorted_append,
        List.take_of_length_le, List.map_append, List.map_singleton]
      · rfl
      · rw [Comparison.length_toSorted, List.length_append, List.length_map]
        rw [List.length_append, List.length_append] at room
        exact (Nat.le_add_right _ _).trans room

end

/-! ### Restoring a concept -/

/-- What the records of a bag can tell: no more tasks than a new concept has room for, by falling
priority, each of them tellable, and no two beliefs about one term. -/
structure Dumpable (kind : TaskKind) (bag : PriorityBag TaskData) : Prop where
  fits : bag.list.length ≤ (freshConcept.bag kind).capacity
  sorted : (byPriority TaskData.priority).Sorted bag.items
  told : ∀ item ∈ bag.items, item.claim.Tellable
  apart : kind = .belief → (keysOf bag.items).Nodup

/-- At each priority, the tasks whose budgets have it say in order what those say that have it in
the bag. -/
def RankedByBudget (bag : PriorityBag TaskData) : Prop :=
  ∀ level : ℚ,
    (bag.items.filter fun item => decide (item.budget.priority = level)).map (·.claim) =
      (bag.items.filter fun item => decide (item.priority = level)).map (·.claim)

/-- The tasks of a bag come back as they are. -/
structure Returns (kind : TaskKind) (bag : PriorityBag TaskData) : Prop
    extends Dumpable kind bag where
  ranked : RankedByBudget bag

section

variable {cell begun : ConceptCell}

theorem represents_freshConcept (kind : TaskKind) :
    Represents TaskData.priority (freshConcept.bag kind) := by
  cases kind <;> exact ⟨.nil, Nat.zero_le _, rfl⟩

theorem items_freshConcept (kind : TaskKind) : (freshConcept.bag kind).items = [] := by
  cases kind <;> rfl

theorem allRestored_freshConcept : AllRestored freshConcept := by
  intro kind
  refine ⟨represents_freshConcept kind, rfl, ?_, ?_⟩
  · rw [items_freshConcept]
    exact List.forall_mem_nil _
  · intro _
    rw [items_freshConcept]
    exact .nil

theorem AllRestored.restoreBags (restored : AllRestored begun.concept)
    (records : List (TaskKind × List TaskRecord)) :
    AllRestored (restoreBags surroundings begun records).2.concept := by
  induction records generalizing begun with
  | nil => exact restored
  | cons entry rest ih =>
    obtain ⟨kind, records⟩ := entry
    have next := @AllRestored.restoreBag surroundings kind begun restored records
    unfold Memory.restoreBags
    split
    · next left stopped =>
      rw [stopped] at next
      exact next
    · next left done =>
      rw [done] at next
      exact ih next

theorem bag_restoreCell (serialized : SerializedConcept) (kind : TaskKind) :
    (restoreCell surroundings begun serialized).concept.bag kind =
      (restoreBags surroundings begun
        [(.belief, serialized.beliefs), (.goal, serialized.goals),
          (.question, serialized.questions)]).2.concept.bag kind := by
  unfold restoreCell
  split
  · next found _ =>
    rw [found]
    cases kind <;> rfl
  · next found _ => rw [found]

theorem priority_restoreCell {serialized value} (given : serialized.priority = some value)
    (done : (restoreBags surroundings begun
      [(.belief, serialized.beliefs), (.goal, serialized.goals),
        (.question, serialized.questions)]).1 = true) :
    (restoreCell surroundings begun serialized).priority = max 0 (min 1 value) := by
  unfold restoreCell
  split
  · next givenHere =>
    cases given.symm.trans givenHere
    rfl
  · next found otherwise =>
    rw [found] at done
    subst done
    exact (otherwise _ given rfl).elim

/-- The records of some kinds. -/
def recordsOf (surroundings : Surroundings) (cell : ConceptCell) (kinds : List TaskKind) :
    List (TaskKind × List TaskRecord) :=
  kinds.map fun kind => (kind, serializeBag surroundings (cell.concept.bag kind))

theorem restoreBags_eq {kinds} (distinct : kinds.Nodup)
    (readsBack : ∀ kind ∈ kinds, ∀ item ∈ (cell.concept.bag kind).items,
      ReadsBack surroundings item.term)
    (dumpable : ∀ kind ∈ kinds, Dumpable kind (cell.concept.bag kind))
    (fresh : ∀ kind ∈ kinds, begun.concept.bag kind = freshConcept.bag kind) :
    (restoreBags surroundings begun (recordsOf surroundings cell kinds)).1 = true ∧
      ∀ kind,
        ((restoreBags surroundings begun
            (recordsOf surroundings cell kinds)).2.concept.bag kind).items =
          if kind ∈ kinds then
            (byPriority TaskData.priority).toSorted
              ((cell.concept.bag kind).items.map (comeBackTask surroundings))
          else (begun.concept.bag kind).items := by
  induction kinds generalizing begun with
  | nil => exact ⟨rfl, fun kind => (if_neg List.not_mem_nil).symm⟩
  | cons kind kinds ih =>
    obtain ⟨notLater, distinct⟩ := List.nodup_cons.mp distinct
    obtain ⟨itsReadsBack, readsBack⟩ := List.forall_mem_cons.mp readsBack
    obtain ⟨itsDumpable, dumpable⟩ := List.forall_mem_cons.mp dumpable
    obtain ⟨itsFresh, fresh⟩ := List.forall_mem_cons.mp fresh
    have first := @restoreBag_eq surroundings kind begun [] (cell.concept.bag kind).items
      itsReadsBack (fun item member => (itsDumpable.told item member).plain) itsDumpable.apart
      (by rw [itsFresh]; exact represents_freshConcept kind)
      (by rw [itsFresh, List.nil_append, length_items]; exact itsDumpable.fits)
      (by rw [itsFresh, items_freshConcept]; rfl)
    have others := @bag_restoreBag_of_ne surroundings kind begun
    obtain ⟨left, restored⟩ : ∃ left, restoreBag surroundings kind begun
        (serializeBag surroundings (cell.concept.bag kind)) = (true, left) :=
      ⟨_, Prod.ext first.1 rfl⟩
    unfold serializeBag at restored
    rw [restored] at first
    have stillFresh : ∀ other ∈ kinds, left.concept.bag other = freshConcept.bag other := by
      intro other member
      have different : other ≠ kind := fun same => notLater (same ▸ member)
      have unchanged := others different
        ((cell.concept.bag kind).items.map (serializeTask surroundings))
      rw [restored] at unchanged
      rw [unchanged]
      exact fresh other member
    obtain ⟨done, items⟩ := ih distinct readsBack dumpable stillFresh
    rw [recordsOf, List.map_cons]
    unfold restoreBags serializeBag
    rw [restored]
    refine ⟨done, fun other => ?_⟩
    refine (items other).trans ?_
    by_cases later : other ∈ kinds
    · rw [if_pos later, if_pos (List.mem_cons_of_mem _ later)]
    · rw [if_neg later]
      by_cases same : other = kind
      · subst same
        rw [if_pos List.mem_cons_self]
        exact first.2
      · have unchanged := others same
          ((cell.concept.bag kind).items.map (serializeTask surroundings))
        rw [restored] at unchanged
        rw [if_neg (by simp [same, later]), unchanged]

theorem toldOf_comeBack {bag restored} (kind : TaskKind) (dumpable : Dumpable kind bag)
    (items : restored.items =
      (byPriority TaskData.priority).toSorted (bag.items.map (comeBackTask surroundings))) :
    toldOf restored = (byPriority Prod.snd).toSorted
      (bag.items.map fun item => (item.claim, item.budget.priority)) := by
  have order (first second : TaskData) : (byPriority TaskData.priority).le first second =
      (byPriority Prod.snd).le (first.claim, first.priority) (second.claim, second.priority) := rfl
  rw [toldOf, items, Comparison.map_toSorted order, List.map_map]
  refine congrArg _ (List.map_congr_left fun item member => ?_)
  obtain ⟨hasTruth, noTime, _⟩ := dumpable.told item member
  obtain ⟨truth, isTruth⟩ := Option.ne_none_iff_exists'.mp hasTruth
  have sameTruth : item.truth = some truth := isTruth
  have sameTime : item.occurrenceTime = none := noTime
  simp [comeBackTask, comeBack, TaskInput.claim, sameTruth, sameTime]

theorem toldOf_comeBack_iff {bag restored} (kind : TaskKind) (dumpable : Dumpable kind bag)
    (items : restored.items =
      (byPriority TaskData.priority).toSorted (bag.items.map (comeBackTask surroundings))) :
    toldOf restored = toldOf bag ↔ RankedByBudget bag := by
  have sorted : (byPriority Prod.snd).Sorted (toldOf bag) :=
    List.pairwise_map.mpr dumpable.sorted
  have level (priority : TaskData → ℚ) (pivot : Claim × ℚ) :
      (bag.items.map fun item => (item.claim, priority item)).filter
          ((byPriority Prod.snd).tied pivot) =
        ((bag.items.filter fun item => decide (priority item = pivot.2)).map (·.claim)).map
          fun claim => (claim, pivot.2) := by
    have ties : ((byPriority Prod.snd).tied pivot ∘ fun item : TaskData =>
        (item.claim, priority item)) = fun item => decide (priority item = pivot.2) := by
      funext item
      rw [Bool.eq_iff_iff]
      simp only [Function.comp, Comparison.tied_iff, byPriority_le, decide_eq_true_eq]
      exact ⟨fun both => le_antisymm both.1 both.2, fun same => ⟨same.le, same.ge⟩⟩
    rw [List.filter_map, ties, List.map_map]
    refine List.map_congr_left fun item member => ?_
    have itsLevel : priority item = pivot.2 := by simpa using (List.mem_filter.mp member).2
    exact Prod.ext rfl itsLevel
  rw [toldOf_comeBack kind dumpable items, ← sorted.toSorted_eq,
    Comparison.toSorted_eq_toSorted_iff]
  have injective (level : ℚ) : Function.Injective fun claim : Claim => (claim, level) :=
    fun first second same => (Prod.mk.inj same).1
  constructor
  · intro same priority
    obtain ⟨pivot, isPivot⟩ : ∃ pivot : Claim × ℚ, pivot.2 = priority :=
      ⟨(⟨.atom "", none, ⟨"", []⟩, none⟩, priority), rfl⟩
    subst isPivot
    have here := same pivot
    rw [level, toldOf, level] at here
    exact List.map_injective_iff.mpr (injective _) here
  · intro ranked pivot
    rw [level, toldOf, level, ranked pivot.2]

theorem Restored.dumpable {kind bag restoredBag} (restored : Restored kind restoredBag)
    (same : toldOf restoredBag = toldOf bag) : Dumpable kind bag := by
  refine ⟨?_, ?_, ?_, ?_⟩
  · have lengths := congrArg List.length same
    rw [toldOf, toldOf, List.length_map, List.length_map, length_items, length_items] at lengths
    rw [← lengths, ← restored.capacity]
    exact restored.represents.fits
  · have sorted : (byPriority Prod.snd).Sorted (toldOf restoredBag) :=
      List.pairwise_map.mpr restored.represents.sorted_items
    rw [same] at sorted
    exact List.pairwise_map.mp sorted
  · intro item member
    have toldHere : (item.claim, item.priority) ∈ toldOf bag := List.mem_map_of_mem member
    rw [← same] at toldHere
    obtain ⟨other, isOther, sameTold⟩ := List.mem_map.mp toldHere
    rw [← (Prod.mk.inj sameTold).1]
    exact restored.told other isOther
  · intro isBelief
    have keys (bag : PriorityBag TaskData) :
        keysOf bag.items = (toldOf bag).map fun entry => termKey entry.1.term := by
      rw [toldOf, List.map_map]
      rfl
    rw [keys, ← same, ← keys]
    exact restored.apart isBelief

/-- A concept comes back with its attention and its tasks. -/
def SameConcept (restored cell : ConceptCell) : Prop :=
  restored.priority = cell.priority ∧
    ∀ kind, toldOf (restored.concept.bag kind) = toldOf (cell.concept.bag kind)

/-- The attention is one a concept can be given, and the tasks of each bag come back. -/
structure ConceptReturns (cell : ConceptCell) : Prop where
  nonneg : 0 ≤ cell.priority
  le_one : cell.priority ≤ 1
  tasks : ∀ kind, Returns kind (cell.concept.bag kind)

theorem sameConcept_restoreCell_iff
    (readsBack : ∀ kind, ∀ item ∈ (cell.concept.bag kind).items,
      ReadsBack surroundings item.term)
    (fresh : begun.concept = freshConcept) :
    SameConcept (restoreCell surroundings begun (serializeConcept surroundings cell)) cell ↔
      ConceptReturns cell := by
  have everyKind (kind : TaskKind) : kind ∈ [TaskKind.belief, .goal, .question] := by
    cases kind <;> decide
  have bags := @bag_restoreCell surroundings begun (serializeConcept surroundings cell)
  have records : [(TaskKind.belief, (serializeConcept surroundings cell).beliefs),
      (.goal, (serializeConcept surroundings cell).goals),
      (.question, (serializeConcept surroundings cell).questions)] =
        recordsOf surroundings cell [.belief, .goal, .question] := rfl
  rw [records] at bags
  -- what holds once every bag can be dumped
  have comesBack (dumpable : ∀ kind, Dumpable kind (cell.concept.bag kind)) :
      (restoreCell surroundings begun (serializeConcept surroundings cell)).priority =
          max 0 (min 1 cell.priority) ∧
        ∀ kind, toldOf ((restoreCell surroundings begun
            (serializeConcept surroundings cell)).concept.bag kind) =
              toldOf (cell.concept.bag kind) ↔ RankedByBudget (cell.concept.bag kind) := by
    obtain ⟨done, items⟩ := @restoreBags_eq surroundings cell begun [.belief, .goal, .question]
      (by decide) (fun kind _ => readsBack kind) (fun kind _ => dumpable kind)
      (fun kind _ => by rw [fresh])
    constructor
    · exact priority_restoreCell rfl done
    · intro kind
      refine @toldOf_comeBack_iff surroundings _ _ kind (dumpable kind) ?_
      rw [bags kind, items kind, if_pos (everyKind kind)]
  constructor
  · rintro ⟨samePriority, sameTasks⟩
    have restored : AllRestored begun.concept := fresh ▸ allRestored_freshConcept
    have dumpable (kind : TaskKind) : Dumpable kind (cell.concept.bag kind) := by
      refine Restored.dumpable ?_ (sameTasks kind)
      rw [bags kind]
      exact restored.restoreBags _ kind
    obtain ⟨priority, told⟩ := comesBack dumpable
    rw [samePriority] at priority
    refine ⟨?_, ?_, fun kind => ⟨dumpable kind, (told kind).mp (sameTasks kind)⟩⟩
    · rw [priority]
      exact le_max_left _ _
    · rw [priority]
      exact max_le zero_le_one (min_le_left _ _)
  · intro returns
    obtain ⟨priority, told⟩ := comesBack fun kind => (returns.tasks kind).toDumpable
    refine ⟨?_, fun kind => (told kind).mpr (returns.tasks kind).ranked⟩
    rw [priority, min_eq_right returns.le_one, max_eq_right returns.nonneg]

end

/-! ### Loading the concepts -/

section

variable {config : MemoryConfig} {memory : Memory}

theorem withRoom_of_fits (fits : memory.concepts.size < max 1 memory.config.maxConcepts) :
    memory.withRoom = memory := by
  unfold withRoom
  split
  · next full =>
    have noSize : memory.concepts.size = 0 := by omega
    have noConcepts := List.length_eq_zero_iff.mp noSize
    unfold applyForgetting listConcepts
    rw [noConcepts]
    rfl
  · rfl

theorem addConcept_fresh {term} (absent : memory.concepts.get term.key = none)
    (fits : memory.concepts.size < max 1 memory.config.maxConcepts) (now : ℚ) :
    ∃ index focus, memory.addConcept term now =
      (memory.made,
        { memory with
          concepts := memory.concepts.set term.key memory.made
          cell := Function.update memory.cell memory.made ⟨term, freshConcept, now⟩
          made := memory.made + 1
          index, focus }) := by
  have left := addConcept_of_absent absent now
  have object : (memory.addConcept term now).1 = memory.withRoom.made := by
    unfold addConcept
    rw [absent]
    rfl
  rw [withRoom_of_fits fits] at left object
  obtain ⟨focus, same, _⟩ := adoptConcept_eq (memory.withNew term now) memory.made now
  have itsTerm := congrArg ConceptCell.term (cell_withNew memory term now)
  rw [same, itsTerm] at left
  exact ⟨_, _, Prod.ext object left⟩

theorem restoreConcept_eq {serialized term}
    (parsed : surroundings.parse serialized.term = some term)
    (absent : memory.concepts.get term.key = none)
    (fits : memory.concepts.size < max 1 memory.config.maxConcepts) :
    (restoreConcept surroundings memory serialized).config = memory.config ∧
      (restoreConcept surroundings memory serialized).made = memory.made + 1 ∧
      (restoreConcept surroundings memory serialized).concepts =
        memory.concepts.set term.key memory.made ∧
      (restoreConcept surroundings memory serialized).cell =
        Function.update memory.cell memory.made
          (restoreCell surroundings
            ⟨term, freshConcept, surroundings.conceptTime serialized⟩ serialized) := by
  obtain ⟨index, focus, added⟩ :=
    addConcept_fresh absent fits (surroundings.conceptTime serialized)
  unfold restoreConcept
  rw [parsed]
  simp only [added, Function.update_self, Function.update_idem, and_self]

/-- The memory the records of some concepts are loaded into. -/
def loaded (surroundings : Surroundings) (memory : Memory) (cells : List ConceptCell) : Memory :=
  (cells.map (serializeConcept surroundings)).foldl (restoreConcept surroundings) memory

theorem loaded_concepts {cells}
    (readsBack : ∀ cell ∈ cells, ReadsBack surroundings cell.term.term)
    (distinct : (cells.map fun cell => cell.term.key).Nodup)
    (areMade : ∀ {key object}, memory.concepts.get key = some object → object < memory.made)
    (absent : ∀ cell ∈ cells, memory.concepts.get cell.term.key = none)
    (fits : memory.concepts.size + cells.length ≤ max 1 memory.config.maxConcepts) :
    (∀ {key object}, memory.concepts.get key = some object →
      (loaded surroundings memory cells).concepts.get key = some object ∧
        (loaded surroundings memory cells).cell object = memory.cell object) ∧
      ∀ cell ∈ cells, ∃ object begun, begun.concept = freshConcept ∧
        (loaded surroundings memory cells).concepts.get cell.term.key = some object ∧
        (loaded surroundings memory cells).cell object =
          restoreCell surroundings begun (serializeConcept surroundings cell) := by
  induction cells generalizing memory with
  | nil => exact ⟨fun found => ⟨found, rfl⟩, fun cell member => absurd member List.not_mem_nil⟩
  | cons cell cells ih =>
    obtain ⟨⟨ref, parsed, sameTerm⟩, readsBack⟩ := List.forall_mem_cons.mp readsBack
    obtain ⟨itsAbsent, absent⟩ := List.forall_mem_cons.mp absent
    obtain ⟨notLater, distinct⟩ := List.nodup_cons.mp distinct
    have sameKey : ref.key = cell.term.key := congrArg termKey sameTerm
    rw [← sameKey] at itsAbsent
    rw [List.length_cons] at fits
    have grows := OrderedMap.size_set_of_absent itsAbsent memory.made
    have effect := @restoreConcept_eq surroundings memory (serializeConcept surroundings cell) ref
      parsed itsAbsent (by omega)
    have step : loaded surroundings memory (cell :: cells) = loaded surroundings
        (restoreConcept surroundings memory (serializeConcept surroundings cell)) cells := rfl
    rw [step]
    generalize restoreConcept surroundings memory (serializeConcept surroundings cell) = next
      at effect ⊢
    obtain ⟨sameConfig, oneMore, concepts, cellNow⟩ := effect
    have nextMade {key : String} {object : ℕ} (found : next.concepts.get key = some object) :
        object < next.made := by
      rw [concepts, OrderedMap.get_set] at found
      rw [oneMore]
      split at found
      · exact Option.some.inj found ▸ Nat.lt_succ_self _
      · exact Nat.lt_succ_of_lt (areMade found)
    have nextAbsent : ∀ other ∈ cells, next.concepts.get other.term.key = none := by
      intro other member
      rw [concepts, OrderedMap.get_set_of_ne]
      · exact absent other member
      · intro same
        exact notLater (List.mem_map.mpr ⟨other, member, same.trans sameKey⟩)
    obtain ⟨kept, restored⟩ := ih readsBack distinct nextMade nextAbsent
      (by rw [concepts, sameConfig]; omega)
    constructor
    · intro key object found
      have different : key ≠ ref.key := by
        rintro rfl
        cases itsAbsent.symm.trans found
      have still : next.concepts.get key = some object := by
        rw [concepts, OrderedMap.get_set_of_ne _ different]
        exact found
      obtain ⟨later, sameCell⟩ := kept still
      rw [cellNow, Function.update_of_ne (areMade found).ne] at sameCell
      exact ⟨later, sameCell⟩
    · refine List.forall_mem_cons.mpr ⟨?_, restored⟩
      have itself : next.concepts.get ref.key = some memory.made := by
        rw [concepts]
        exact OrderedMap.get_set_self _ _ _
      obtain ⟨later, sameCell⟩ := kept itself
      rw [cellNow, Function.update_self] at sameCell
      exact ⟨memory.made, _, rfl, sameKey ▸ later, sameCell⟩

theorem term_restoreBag (kind : TaskKind) (cell : ConceptCell) (records : List TaskRecord) :
    (restoreBag surroundings kind cell records).2.term = cell.term := by
  induction records generalizing cell with
  | nil => rfl
  | cons record rest ih =>
    unfold restoreBag
    split
    · rfl
    · exact ih cell
    · exact ih _

theorem term_restoreBags (cell : ConceptCell) (records : List (TaskKind × List TaskRecord)) :
    (restoreBags surroundings cell records).2.term = cell.term := by
  induction records generalizing cell with
  | nil => rfl
  | cons entry rest ih =>
    obtain ⟨kind, records⟩ := entry
    have first := @term_restoreBag surroundings kind cell records
    unfold restoreBags
    split
    · next left stopped =>
      rw [stopped] at first
      exact first
    · next left done =>
      rw [done] at first
      exact (ih left).trans first

theorem term_restoreCell (cell : ConceptCell) (serialized : SerializedConcept) :
    (restoreCell surroundings cell serialized).term = cell.term := by
  have same := @term_restoreBags surroundings cell
    [(.belief, serialized.beliefs), (.goal, serialized.goals), (.question, serialized.questions)]
  unfold restoreCell
  split
  · next found _ =>
    rw [found] at same
    exact same
  · next found _ =>
    rw [found] at same
    exact same

section

variable (formed : WellFormed config memory)
  (bounded : memory.concepts.size ≤ max 1 config.maxConcepts)

include formed bounded

theorem size_addConcept_le (term : TermRef) (now : ℚ) :
    (memory.addConcept term now).2.concepts.size ≤ max 1 config.maxConcepts := by
  cases found : memory.concepts.get term.key with
  | some object =>
    rw [addConcept_of_get found]
    exact bounded
  | none =>
    have roomy : memory.withRoom.concepts.size < max 1 config.maxConcepts := by
      unfold withRoom
      rw [formed.configured]
      split
      · rw [size_applyForgetting formed]
        omega
      · omega
    obtain ⟨focus, same, _⟩ :=
      adoptConcept_eq (memory.withRoom.withNew term now) memory.withRoom.made now
    rw [addConcept_of_absent found, same]
    exact (OrderedMap.size_set_le _ _ _).trans roomy

theorem bounded_restoreConcept (serialized : SerializedConcept) :
    WellFormed config (restoreConcept surroundings memory serialized) ∧
      (restoreConcept surroundings memory serialized).concepts.size ≤
        max 1 config.maxConcepts := by
  unfold restoreConcept
  split
  · exact ⟨formed, bounded⟩
  · next term _ =>
    have added := formed.addConcept term (surroundings.conceptTime serialized)
    have size := size_addConcept_le formed bounded term (surroundings.conceptTime serialized)
    generalize memory.addConcept term (surroundings.conceptTime serialized) = adopted
      at added size ⊢
    obtain ⟨object, left⟩ := adopted
    refine ⟨added.of_cell fun other => ?_, size⟩
    by_cases same : other = object
    · subst same
      rw [Function.update_self, term_restoreCell]
    · rw [Function.update_of_ne same]

theorem size_loaded_le (cells : List ConceptCell) :
    (loaded surroundings memory cells).concepts.size ≤ max 1 config.maxConcepts := by
  induction cells generalizing memory with
  | nil => exact bounded
  | cons cell cells ih =>
    obtain ⟨nextFormed, nextBounded⟩ := @bounded_restoreConcept surroundings config memory
      formed bounded (serializeConcept surroundings cell)
    exact ih nextFormed nextBounded

end

end

/-! ### The result -/

section

variable {config : MemoryConfig} {memory : Memory}

/-- The dump of a memory, loaded into an empty one, has every concept as it is. -/
def RoundTrips (surroundings : Surroundings) (memory : Memory) (now : ℚ) : Prop :=
  ∃ last, deserialize surroundings (serialize surroundings memory now)
      (newMemory memory.config) = .ok last ∧
    ∀ {key object}, memory.concepts.get key = some object →
      ∃ restored, last.concepts.get key = some restored ∧
        SameConcept (last.cell restored) (memory.cell object)

/-- The memory has room for its concepts, and each of them comes back. -/
structure Restorable (memory : Memory) : Prop where
  room : memory.concepts.size ≤ max 1 memory.config.maxConcepts
  concepts : ∀ {key object}, memory.concepts.get key = some object →
    ConceptReturns (memory.cell object)

/-- The terms of a memory are read as they were written. -/
structure TermsReadBack (surroundings : Surroundings) (memory : Memory) : Prop where
  concepts : ∀ {key object}, memory.concepts.get key = some object →
    ReadsBack surroundings (memory.cell object).term.term
  tasks : ∀ {key object}, memory.concepts.get key = some object →
    ∀ kind, ∀ item ∈ ((memory.cell object).concept.bag kind).items,
      ReadsBack surroundings item.term

theorem wellFormed_storeStep {next event} (formed : WellFormed config memory)
    (step : storeStep memory event = some next) : WellFormed config next := by
  cases event with
  | memory event => exact wellFormed_step formed step
  | inside object concept lastAccessedAt =>
    have left := (Option.ite_none_right_eq_some.mp step).2
    rw [← Option.some.inj left]
    refine formed.of_cell fun other => ?_
    by_cases same : other = object
    · subst same
      rw [Function.update_self]
    · rw [Function.update_of_ne same]

theorem clear_newMemory (config : MemoryConfig) : (newMemory config).clear = newMemory config := by
  unfold clear newMemory
  simp

theorem keys_listConcepts (formed : WellFormed config memory) :
    (memory.listConcepts.map memory.cell).map (fun cell => cell.term.key) =
      memory.concepts.entries.map Prod.fst := by
  rw [listConcepts, List.map_map, List.map_map]
  refine List.map_congr_left fun entry member => ?_
  have found := (OrderedMap.get_eq_some_iff memory.concepts entry.1 entry.2).mpr member
  exact (formed.resident found).2

theorem size_le_of_extends {first second : OrderedMap String ℕ}
    (found : ∀ {key object}, first.get key = some object → second.get key ≠ none) :
    first.size ≤ second.size := by
  have among : first.entries.map Prod.fst ⊆ second.entries.map Prod.fst := by
    intro key member
    obtain ⟨entry, isEntry, rfl⟩ := List.mem_map.mp member
    have there := (OrderedMap.get_eq_some_iff first entry.1 entry.2).mpr isEntry
    obtain ⟨object, here⟩ := Option.ne_none_iff_exists'.mp (found there)
    exact List.mem_map.mpr
      ⟨(entry.1, object), (OrderedMap.get_eq_some_iff second entry.1 object).mp here, rfl⟩
  have lengths := (first.nodup.subperm among).length_le
  rwa [List.length_map, List.length_map] at lengths

/-- A memory that was reached comes back from its dump exactly where it has room for its concepts,
and the attention and the tasks of each of them are those that records tell. -/
theorem roundTrips_iff {events : List StoreEvent}
    (run : Run storeStep (newMemory config) events memory)
    (readsBack : TermsReadBack surroundings memory) (now : ℚ) :
    RoundTrips surroundings memory now ↔ Restorable memory := by
  have formed : WellFormed config memory :=
    run.keeps (fun _ _ _ held step => wellFormed_storeStep held step)
      (wellFormed_newMemory config)
  have sameConfig := formed.configured
  have done : deserialize surroundings (serialize surroundings memory now)
      (newMemory memory.config) =
        .ok (loaded surroundings (newMemory config) (memory.listConcepts.map memory.cell)) := by
    unfold deserialize loaded
    rw [if_neg (fun differs => differs rfl), clear_newMemory, sameConfig, List.map_map]
    rfl
  have count : (memory.listConcepts.map memory.cell).length = memory.concepts.size := by
    rw [List.length_map, listConcepts, List.length_map]
    rfl
  have listed {key : String} {object : ℕ} (found : memory.concepts.get key = some object) :
      memory.cell object ∈ memory.listConcepts.map memory.cell :=
    List.mem_map_of_mem (List.mem_map.mpr
      ⟨(key, object), (OrderedMap.get_eq_some_iff _ _ _).mp found, rfl⟩)
  have residents : ∀ cell ∈ memory.listConcepts.map memory.cell,
      ReadsBack surroundings cell.term.term := by
    intro cell member
    obtain ⟨object, isListed, rfl⟩ := List.mem_map.mp member
    exact readsBack.concepts (formed.get_of_listed isListed)
  -- where there is room for all, each concept comes back as its own records tell
  have comesBack (room : memory.concepts.size ≤ max 1 config.maxConcepts) {key : String}
      {object : ℕ} (found : memory.concepts.get key = some object) :
      ∃ restored, (loaded surroundings (newMemory config)
            (memory.listConcepts.map memory.cell)).concepts.get key = some restored ∧
        (SameConcept ((loaded surroundings (newMemory config)
            (memory.listConcepts.map memory.cell)).cell restored) (memory.cell object) ↔
          ConceptReturns (memory.cell object)) := by
    have keys := keys_listConcepts formed
    obtain ⟨_, restored⟩ := @loaded_concepts surroundings (newMemory config)
      (memory.listConcepts.map memory.cell) residents (keys ▸ memory.concepts.nodup)
      (fun found => by cases found) (fun _ _ => rfl)
      (by rw [count, show (newMemory config).concepts.size = 0 from rfl, Nat.zero_add]; exact room)
    obtain ⟨other, begun, fresh, here, sameCell⟩ := restored _ (listed found)
    rw [(formed.resident found).2] at here
    refine ⟨other, here, ?_⟩
    rw [sameCell]
    exact sameConcept_restoreCell_iff (readsBack.tasks found) fresh
  unfold RoundTrips
  rw [done]
  constructor
  · rintro ⟨last, isLast, back⟩
    cases isLast
    have room : memory.concepts.size ≤ max 1 config.maxConcepts := by
      refine (size_le_of_extends fun found => ?_).trans
        (@size_loaded_le surroundings config _ (wellFormed_newMemory config) (Nat.zero_le _)
          (memory.listConcepts.map memory.cell))
      obtain ⟨restored, here, _⟩ := back found
      rw [here]
      exact Option.some_ne_none _
    refine ⟨sameConfig ▸ room, fun found => ?_⟩
    obtain ⟨restored, here, same⟩ := back found
    obtain ⟨other, alsoHere, returns⟩ := comesBack room found
    cases here.symm.trans alsoHere
    exact returns.mp same
  · intro restorable
    refine ⟨_, rfl, fun found => ?_⟩
    obtain ⟨restored, here, returns⟩ := comesBack (sameConfig ▸ restorable.room) found
    exact ⟨restored, here, returns.mpr (restorable.concepts found)⟩

end

/-- Surroundings where an atom is written as its symbol. -/
def symbols : Surroundings where
  toText
    | .atom symbol => symbol
    | .compound _ _ => ""
  parse text := some ⟨0, .atom text⟩
  collator := codePointCollator
  madeStamp _ := ⟨"", []⟩
  madeId := TaskRecord.term
  taskTime _ := 0
  conceptTime _ := 0

/-- A task about birds. -/
def birdTask (truth : Option Truth) : TaskData where
  term := .atom "bird"
  truth
  budget := { priority := 1 / 2 }
  stamp := ⟨"s1", []⟩
  id := "1"
  priority := 1 / 2

/-- Tell a memory a task about birds. -/
def tellOfBirds (kind : TaskKind) (truth : Option Truth) : StoreEvent :=
  .memory (.addTask ⟨0, .atom "bird"⟩ kind truth { priority := 1 / 2 } ⟨"s1", []⟩ "1" 0)

/-- The memory that was told. -/
def withBirds (kind : TaskKind) (truth : Option Truth) : Memory :=
  ((newMemory {}).addTask ⟨0, .atom "bird"⟩ kind truth { priority := 1 / 2 } ⟨"s1", []⟩ "1" 0).2

theorem object_of_withBirds {kind truth key object}
    (found : (withBirds kind truth).concepts.get key = some object) : object = 0 := by
  have entries : (withBirds kind truth).concepts.entries = [(termKey (.atom "bird"), 0)] := rfl
  have member := (OrderedMap.get_eq_some_iff _ _ _).mp found
  rw [entries, List.mem_singleton] at member
  exact (Prod.mk.inj member).2

theorem items_withBirds (kind other : TaskKind) (truth : Option Truth) :
    (((withBirds kind truth).cell 0).concept.bag other).items =
      if other = kind then [birdTask truth] else [] := by
  cases kind <;> cases other <;> rfl

theorem withBirds_readsBack (kind : TaskKind) (truth : Option Truth) :
    TermsReadBack symbols (withBirds kind truth) := by
  constructor
  · intro key object found
    cases object_of_withBirds found
    exact ⟨_, rfl, rfl⟩
  · intro key object found other item member
    cases object_of_withBirds found
    rw [items_withBirds] at member
    split at member
    · cases List.mem_singleton.mp member
      exact ⟨_, rfl, rfl⟩
    · cases member

theorem restorable_withBirds : Restorable (withBirds .belief (some Rules.neutralTruth)) := by
  refine ⟨by decide, fun found => ?_⟩
  cases object_of_withBirds found
  have priority : ((withBirds .belief (some Rules.neutralTruth)).cell 0).priority =
      max 0 (min 1 (0 + 1 / 10)) := rfl
  refine ⟨by rw [priority]; norm_num, by rw [priority]; norm_num,
    fun kind => ⟨⟨?_, ?_, ?_, ?_⟩, ?_⟩⟩
  · cases kind <;> decide
  · rw [items_withBirds]
    split
    · exact List.pairwise_singleton _ _
    · exact .nil
  · intro item member
    rw [items_withBirds] at member
    split at member
    · cases List.mem_singleton.mp member
      exact ⟨Option.some_ne_none _, rfl, rfl⟩
    · cases member
  · rintro rfl
    exact List.nodup_singleton _
  · intro level
    rw [items_withBirds]
    split
    · rfl
    · rfl

/-- A belief comes back from the dump of its memory. -/
theorem roundTrips_withBirds :
    Restorable (withBirds .belief (some Rules.neutralTruth)) ∧
      RoundTrips symbols (withBirds .belief (some Rules.neutralTruth)) 0 :=
  ⟨restorable_withBirds,
    (@roundTrips_iff symbols {} _ [tellOfBirds .belief (some Rules.neutralTruth)]
      (.cons rfl (.nil _)) (withBirds_readsBack _ _) 0).mpr restorable_withBirds⟩

/-- A question without truth comes back with one. -/
theorem question_comes_back_with_truth :
    ¬ ∀ (surroundings : Surroundings) (config : MemoryConfig) (events : List StoreEvent)
        (memory : Memory) (now : ℚ), Run storeStep (newMemory config) events memory →
      TermsReadBack surroundings memory → RoundTrips surroundings memory now := by
  intro holds
  obtain ⟨last, done, back⟩ := holds symbols {} [tellOfBirds .question none]
    (withBirds .question none) 0 (.cons rfl (.nil _)) (withBirds_readsBack _ _)
  cases done
  obtain ⟨restored, here, same⟩ := @back (termKey (.atom "bird")) 0 rfl
  cases Option.some.inj (here.symm.trans rfl)
  have truths := congrArg (List.map fun entry => entry.1.truth.isSome) (same.2 .question)
  exact absurd truths (by decide)

end Senars.Memory
