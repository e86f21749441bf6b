/-
This file proves when the parts of a memory agree. They agree until a concept comes in whose
term is in the archive, or one comes back from the archive that has no place: neither way in
looks at what the other one keeps.
-/

import Senars.Memory.Store

namespace Senars.Memory

open Library Bag Terms Senars.Algebra

/-! ### Sets under keys -/

section

variable {Key Value : Type} [DecidableEq Key] [DecidableEq Value]

/-- A value is in the set under a key. -/
def Filed (map : OrderedMap Key (List Value)) (key : Key) (value : Value) : Prop :=
  ∃ bucket, map.get key = some bucket ∧ value ∈ bucket

theorem filed_addToSet {map} {key name : Key} {value other : Value} :
    Filed (addToSet map key value) name other ↔
      Filed map name other ∨ name = key ∧ other = value := by
  unfold Filed addToSet
  simp only [OrderedMap.get_set]
  by_cases same : name = key
  · subst same
    cases found : map.get name with
    | none => simp [mem_addMember]
    | some bucket => simp [mem_addMember]
  · simp [same]

theorem filed_removeFromSet {map} {key name : Key} {value other : Value} :
    Filed (removeFromSet map key value) name other ↔
      Filed map name other ∧ ¬ (name = key ∧ other = value) := by
  unfold Filed removeFromSet
  cases found : map.get key with
  | none =>
    constructor
    · rintro ⟨bucket, there, member⟩
      refine ⟨⟨bucket, there, member⟩, ?_⟩
      rintro ⟨rfl, rfl⟩
      cases found.symm.trans there
    · exact And.left
  | some bucket =>
    simp only
    by_cases same : name = key
    · subst same
      split
      · next nothingLeft =>
        have onlyThis := List.filter_eq_nil_iff.mp nothingLeft
        simp only [OrderedMap.get_delete, found]
        constructor
        · rintro ⟨_, there, _⟩
          simp at there
        · rintro ⟨⟨kept, there, member⟩, different⟩
          cases there
          have alone : other = value := by simpa using onlyThis other member
          exact absurd ⟨trivial, alone⟩ different
      · simp [found]
    · split
      · simp [same, OrderedMap.get_delete]
      · rw [OrderedMap.get_set_of_ne _ same]
        simp [same]

end

/-! ### The index -/

namespace MemoryIndex

theorem filed_add {index : MemoryIndex} {key name object other now} :
    Filed (index.add key object now).atomicIndex name other ↔
      Filed index.atomicIndex name other ∨ name = key ∧ other = object :=
  filed_addToSet

theorem filed_remove {index : MemoryIndex} {key name object other} :
    Filed (index.remove key object).atomicIndex name other ↔
      Filed index.atomicIndex name other ∧ ¬ (name = key ∧ other = object) := by
  rw [← filed_removeFromSet]
  unfold remove
  split <;> rfl

end MemoryIndex

/-! ### What holds of every memory -/

/-- The memory has its configuration, each resident concept is one that was made and is under the
key of its term, and so it is with each archived concept and its term. -/
structure WellFormed (config : MemoryConfig) (memory : Memory) : Prop where
  configured : memory.config = config
  resident : ∀ {key object}, memory.concepts.get key = some object →
    object < memory.made ∧ (memory.cell object).term.key = key
  stored : ∀ {term object}, memory.archived.get term = some object →
    object < memory.made ∧ (memory.cell object).term = term

/-- The concepts fit, the index refers to the resident ones and to no other, and those in focus are
resident. -/
structure InStep (memory : Memory) : Prop where
  bounded : memory.concepts.size ≤ memory.config.maxConcepts
  indexed : memory.config.enableIndexing = true → ∀ key object,
    Filed memory.index.atomicIndex key object ↔ memory.concepts.get key = some object
  focused : ∀ {key object}, memory.focus.get key = some object →
    memory.concepts.get key = some object

/-- The parts of the memory agree: what is more, no term is both resident and archived. -/
structure Coherent (memory : Memory) : Prop extends InStep memory where
  apart : ∀ {term object}, memory.archived.get term = some object →
    memory.concepts.get term.key = none

variable {config : MemoryConfig} {memory : Memory}

/-! ### Focus -/

theorem addToFocus_eq (memory : Memory) (object : ℕ) :
    ∃ focus, memory.addToFocus object = { memory with focus } ∧
      ∀ {key other}, focus.get key = some other → memory.focus.get key = some other ∨
        key = (memory.cell object).term.key ∧ other = object := by
  unfold addToFocus
  simp only
  split
  · split
    · exact ⟨memory.focus, rfl, .inl⟩
    · split
      · exact ⟨memory.focus, rfl, .inl⟩
      · refine ⟨_, rfl, ?_⟩
        intro key other found
        rw [OrderedMap.get_set] at found
        split at found
        · next same => exact .inr ⟨same, (Option.some.inj found).symm⟩
        · rw [OrderedMap.get_delete] at found
          split at found
          · cases found
          · exact .inl found
  · refine ⟨_, rfl, ?_⟩
    intro key other found
    rw [OrderedMap.get_set] at found
    split at found
    · next same => exact .inr ⟨same, (Option.some.inj found).symm⟩
    · exact .inl found

theorem InStep.addToFocus (inStep : InStep memory) {object}
    (resident : memory.concepts.get (memory.cell object).term.key = some object) :
    InStep (memory.addToFocus object) := by
  obtain ⟨focus, same, among⟩ := addToFocus_eq memory object
  rw [same]
  refine ⟨inStep.bounded, inStep.indexed, ?_⟩
  intro key other found
  rcases among found with old | ⟨rfl, rfl⟩
  · exact inStep.focused old
  · exact resident

/-! ### Adding and removing -/

variable {object : ℕ} {term : TermRef} {key : String} {Value : Type} {next : Memory}

theorem get_delete_of_get {map : OrderedMap String ℕ} {name}
    (found : (map.delete key).get name = some object) :
    map.get name = some object ∧ name ≠ key := by
  rw [OrderedMap.get_delete] at found
  split at found
  · cases found
  · next different => exact ⟨found, different⟩

theorem removeConcept_of_get (found : memory.concepts.get key = some object) :
    (memory.removeConcept key).2 =
      { memory with
        focus := memory.focus.delete (memory.cell object).term.key
        index := if memory.config.enableIndexing then
          memory.index.remove (memory.cell object).term.key object else memory.index
        concepts := memory.concepts.delete key } := by
  unfold removeConcept
  rw [found]

theorem removeConcept_of_absent (absent : memory.concepts.get key = none) :
    (memory.removeConcept key).2 = memory := by
  unfold removeConcept
  rw [absent]

theorem get_removeConcept (memory : Memory) (key name : String) :
    (memory.removeConcept key).2.concepts.get name =
      if name = key then none else memory.concepts.get name := by
  cases found : memory.concepts.get key with
  | none =>
    rw [removeConcept_of_absent found]
    split
    · next same => rw [same, found]
    · rfl
  | some object =>
    rw [removeConcept_of_get found]
    exact OrderedMap.get_delete _ _ _

theorem archived_removeConcept (memory : Memory) (key : String) :
    (memory.removeConcept key).2.archived = memory.archived := by
  unfold removeConcept
  split <;> rfl

theorem WellFormed.removeConcept (formed : WellFormed config memory) (key : String) :
    WellFormed config (memory.removeConcept key).2 := by
  cases found : memory.concepts.get key with
  | none =>
    rw [removeConcept_of_absent found]
    exact formed
  | some object =>
    rw [removeConcept_of_get found]
    exact ⟨formed.configured, fun stays => formed.resident (get_delete_of_get stays).1,
      formed.stored⟩

theorem InStep.removeConcept (inStep : InStep memory)
    (formed : WellFormed config memory) (key : String) : InStep (memory.removeConcept key).2 := by
  cases found : memory.concepts.get key with
  | none =>
    rw [removeConcept_of_absent found]
    exact inStep
  | some object =>
    rw [removeConcept_of_get found]
    have itsKey := (formed.resident found).2
    rw [itsKey]
    refine ⟨(OrderedMap.size_delete_le _ _).trans inStep.bounded, ?_, ?_⟩
    · intro enabled name other
      have before := inStep.indexed enabled name other
      rw [if_pos enabled, MemoryIndex.filed_remove, before, OrderedMap.get_delete]
      by_cases same : name = key
      · subst same
        rw [found]
        simp [eq_comm]
      · simp [same]
    · intro name other stays
      obtain ⟨focused, different⟩ := get_delete_of_get stays
      rw [OrderedMap.get_delete, if_neg different]
      exact inStep.focused focused

theorem Coherent.removeConcept (coherent : Coherent memory)
    (formed : WellFormed config memory) (key : String) : Coherent (memory.removeConcept key).2 := by
  refine ⟨coherent.toInStep.removeConcept formed key, ?_⟩
  intro term object found
  rw [archived_removeConcept] at found
  rw [get_removeConcept, coherent.apart found, ite_self]

theorem minBy_eq_none_iff {score} {values : List Value} :
    minBy score values = none ↔ values = [] := by
  cases values with
  | nil => simp [minBy]
  | cons value rest =>
    unfold minBy
    split
    · simp
    · split <;> simp

theorem mem_of_minBy {score values} {lowest : Value} (found : minBy score values = some lowest) :
    lowest ∈ values := by
  induction values generalizing lowest with
  | nil => cases found
  | cons value rest ih =>
    unfold minBy at found
    split at found
    · exact Option.some.inj found ▸ List.mem_cons_self
    · next other there =>
      split at found
      · exact Option.some.inj found ▸ List.mem_cons_of_mem _ (ih there)
      · exact Option.some.inj found ▸ List.mem_cons_self

theorem WellFormed.get_of_listed (formed : WellFormed config memory)
    (listed : object ∈ memory.listConcepts) :
    memory.concepts.get (memory.cell object).term.key = some object := by
  obtain ⟨⟨key, _⟩, there, rfl⟩ := List.mem_map.mp listed
  have found := (OrderedMap.get_eq_some_iff _ _ _).mpr there
  rw [(formed.resident found).2]
  exact found

theorem removeConcept_eq (memory : Memory) (key : String) :
    ∃ concepts index focus, (memory.removeConcept key).2 = { memory with concepts, index, focus } ∧
      ∀ {name}, memory.concepts.get name = none → concepts.get name = none := by
  cases found : memory.concepts.get key with
  | none =>
    rw [removeConcept_of_absent found]
    exact ⟨memory.concepts, memory.index, memory.focus, rfl, id⟩
  | some object =>
    rw [removeConcept_of_get found]
    refine ⟨_, _, _, rfl, ?_⟩
    intro name absent
    rw [OrderedMap.get_delete, absent, ite_self]

theorem applyForgetting_eq (memory : Memory) :
    ∃ key, memory.applyForgetting = (memory.removeConcept key).2 ∨
      memory.applyForgetting = memory := by
  unfold applyForgetting
  simp only
  split
  · exact ⟨"", .inr rfl⟩
  · exact ⟨_, .inl rfl⟩

theorem WellFormed.applyForgetting (formed : WellFormed config memory) :
    WellFormed config memory.applyForgetting := by
  obtain ⟨key, same | same⟩ := applyForgetting_eq memory
  · rw [same]
    exact formed.removeConcept key
  · rw [same]
    exact formed

theorem Coherent.applyForgetting (coherent : Coherent memory)
    (formed : WellFormed config memory) : Coherent memory.applyForgetting := by
  obtain ⟨key, same | same⟩ := applyForgetting_eq memory
  · rw [same]
    exact coherent.removeConcept formed key
  · rw [same]
    exact coherent

theorem size_applyForgetting (formed : WellFormed config memory) :
    memory.applyForgetting.concepts.size = memory.concepts.size - 1 := by
  unfold Memory.applyForgetting
  simp only
  split
  · next nothing =>
    have noConcepts := List.map_eq_nil_iff.mp (minBy_eq_none_iff.mp nothing)
    rw [OrderedMap.size, noConcepts, List.length_nil]
  · next victim found =>
    have there := formed.get_of_listed (mem_of_minBy found)
    rw [removeConcept_of_get there]
    have smaller := OrderedMap.size_delete there
    simp only
    omega

/-- No term with a key is in the archive. -/
def Unarchived (memory : Memory) (key : String) : Prop :=
  ∀ term, term.key = key → memory.archived.get term = none

theorem adoptConcept_eq (memory : Memory) (object : ℕ) (now : ℚ) :
    ∃ focus, memory.adoptConcept object now =
        { memory with
          concepts := memory.concepts.set (memory.cell object).term.key object
          index := if memory.config.enableIndexing then
            memory.index.add (memory.cell object).term.key object now else memory.index
          focus } ∧
      ∀ {key other}, focus.get key = some other → memory.focus.get key = some other ∨
        key = (memory.cell object).term.key ∧ other = object :=
  addToFocus_eq _ object

theorem WellFormed.adoptConcept (formed : WellFormed config memory) {object}
    (isMade : object < memory.made) (now : ℚ) :
    WellFormed config (memory.adoptConcept object now) := by
  obtain ⟨focus, same, _⟩ := adoptConcept_eq memory object now
  rw [same]
  refine ⟨formed.configured, ?_, formed.stored⟩
  intro key other found
  rw [OrderedMap.get_set] at found
  split at found
  · next sameKey =>
    cases found
    exact ⟨isMade, sameKey.symm⟩
  · exact formed.resident found

theorem InStep.adoptConcept (inStep : InStep memory) {object}
    (absent : memory.concepts.get (memory.cell object).term.key = none)
    (fits : memory.concepts.size < memory.config.maxConcepts) (now : ℚ) :
    InStep (memory.adoptConcept object now) := by
  obtain ⟨focus, same, among⟩ := adoptConcept_eq memory object now
  rw [same]
  refine ⟨(OrderedMap.size_set_of_absent absent object).trans_le fits, ?_, ?_⟩
  · intro enabled key other
    have before := inStep.indexed enabled key other
    rw [if_pos enabled, MemoryIndex.filed_add, before, OrderedMap.get_set]
    by_cases sameKey : key = (memory.cell object).term.key
    · rw [sameKey, absent]
      simp [eq_comm]
    · simp [sameKey]
  · intro key other found
    rcases among found with old | ⟨rfl, rfl⟩
    · have resident := inStep.focused old
      rw [OrderedMap.get_set_of_ne]
      · exact resident
      · rintro rfl
        cases absent.symm.trans resident
    · exact OrderedMap.get_set_self _ _ _

theorem coherent_adoptConcept_iff (coherent : Coherent memory)
    (absent : memory.concepts.get (memory.cell object).term.key = none) (now : ℚ) :
    Coherent (memory.adoptConcept object now) ↔
      memory.concepts.size < memory.config.maxConcepts ∧
        Unarchived memory (memory.cell object).term.key := by
  constructor
  · intro adopted
    obtain ⟨focus, same, _⟩ := adoptConcept_eq memory object now
    rw [same] at adopted
    constructor
    · exact (OrderedMap.size_set_of_absent absent object).symm.trans_le adopted.bounded
    · intro term sameKey
      cases found : memory.archived.get term with
      | none => rfl
      | some other =>
        have goes := adopted.apart found
        rw [sameKey, OrderedMap.get_set_self] at goes
        cases goes
  · rintro ⟨fits, unarchived⟩
    refine ⟨coherent.toInStep.adoptConcept absent fits now, ?_⟩
    intro term other found
    obtain ⟨focus, same, _⟩ := adoptConcept_eq memory object now
    rw [same] at found ⊢
    rw [OrderedMap.get_set_of_ne]
    · exact coherent.apart found
    · intro sameKey
      cases (unarchived term sameKey).symm.trans found

/-- The memory a new concept comes into. -/
def withRoom (memory : Memory) : Memory :=
  if memory.config.maxConcepts ≤ memory.concepts.size then memory.applyForgetting else memory

/-- The memory once a concept object of a term was made. -/
def withNew (memory : Memory) (term : TermRef) (now : ℚ) : Memory :=
  { memory with
    cell := Function.update memory.cell memory.made ⟨term, newConcept 100 50 20, now⟩
    made := memory.made + 1 }

theorem withRoom_eq (memory : Memory) :
    ∃ concepts index focus, memory.withRoom = { memory with concepts, index, focus } ∧
      ∀ {name}, memory.concepts.get name = none → concepts.get name = none := by
  have asItIs : ∃ concepts index focus, memory = { memory with concepts, index, focus } ∧
      ∀ {name}, memory.concepts.get name = none → concepts.get name = none :=
    ⟨memory.concepts, memory.index, memory.focus, rfl, id⟩
  unfold withRoom
  split
  · obtain ⟨key, same | same⟩ := applyForgetting_eq memory
    · rw [same]
      exact removeConcept_eq memory key
    · rw [same]
      exact asItIs
  · exact asItIs

theorem WellFormed.withRoom (formed : WellFormed config memory) :
    WellFormed config memory.withRoom := by
  unfold Memory.withRoom
  split
  · exact formed.applyForgetting
  · exact formed

theorem Coherent.withRoom (coherent : Coherent memory)
    (formed : WellFormed config memory) (room : 1 ≤ config.maxConcepts) :
    Coherent memory.withRoom ∧ memory.withRoom.concepts.size < memory.config.maxConcepts := by
  have bounded := coherent.bounded
  rw [← formed.configured] at room
  unfold Memory.withRoom
  split
  · refine ⟨coherent.applyForgetting formed, ?_⟩
    rw [size_applyForgetting formed]
    omega
  · exact ⟨coherent, by omega⟩

theorem WellFormed.withNew (formed : WellFormed config memory) (term : TermRef)
    (now : ℚ) : WellFormed config (memory.withNew term now) := by
  have older {object : ℕ} (isMade : object < memory.made) :
      (memory.withNew term now).cell object = memory.cell object :=
    Function.update_of_ne isMade.ne _ _
  refine ⟨formed.configured, ?_, ?_⟩
  · intro key object found
    obtain ⟨isMade, itsKey⟩ := formed.resident found
    exact ⟨Nat.lt_succ_of_lt isMade, by rw [older isMade, itsKey]⟩
  · intro archivedTerm object found
    obtain ⟨isMade, itsTerm⟩ := formed.stored found
    exact ⟨Nat.lt_succ_of_lt isMade, by rw [older isMade, itsTerm]⟩

theorem cell_withNew (memory : Memory) (term : TermRef) (now : ℚ) :
    (memory.withNew term now).cell memory.made = ⟨term, newConcept 100 50 20, now⟩ :=
  Function.update_self _ _ _

theorem addConcept_of_absent (absent : memory.concepts.get term.key = none) (now : ℚ) :
    (memory.addConcept term now).2 =
      (memory.withRoom.withNew term now).adoptConcept memory.withRoom.made now := by
  unfold addConcept
  rw [absent]
  rfl

theorem addConcept_of_get (found : memory.concepts.get term.key = some object) (now : ℚ) :
    memory.addConcept term now = (object, memory) := by
  unfold addConcept
  rw [found]

theorem WellFormed.addConcept (formed : WellFormed config memory) (term : TermRef)
    (now : ℚ) : WellFormed config (memory.addConcept term now).2 := by
  cases found : memory.concepts.get term.key with
  | some object =>
    rw [addConcept_of_get found]
    exact formed
  | none =>
    rw [addConcept_of_absent found]
    exact (formed.withRoom.withNew term now).adoptConcept (Nat.lt_succ_self _) now

theorem coherent_addConcept_iff (formed : WellFormed config memory)
    (room : 1 ≤ config.maxConcepts) (coherent : Coherent memory) (term : TermRef) (now : ℚ) :
    Coherent (memory.addConcept term now).2 ↔
      (memory.concepts.get term.key ≠ none ∨ Unarchived memory term.key) := by
  cases found : memory.concepts.get term.key with
  | some object =>
    rw [addConcept_of_get found]
    simp [coherent]
  | none =>
    obtain ⟨roomy, fits⟩ := coherent.withRoom formed room
    have fresh : Coherent (memory.withRoom.withNew term now) :=
      ⟨⟨roomy.bounded, roomy.indexed, roomy.focused⟩, roomy.apart⟩
    have itsTerm := congrArg ConceptCell.term (cell_withNew memory.withRoom term now)
    obtain ⟨concepts, index, focus, same, stays⟩ := withRoom_eq memory
    have absent : (memory.withRoom.withNew term now).concepts.get
        ((memory.withRoom.withNew term now).cell memory.withRoom.made).term.key = none := by
      rw [itsTerm, same]
      exact stays found
    have sameArchive : Unarchived (memory.withRoom.withNew term now) term.key ↔
        Unarchived memory term.key := by
      rw [same]
      rfl
    have sameBound : (memory.withRoom.withNew term now).config = memory.config := by
      rw [same]
      rfl
    rw [addConcept_of_absent found, coherent_adoptConcept_iff fresh absent, itsTerm, sameArchive,
      sameBound]
    simp [withNew, fits]

theorem addTask_eq (memory : Memory) (term : TermRef) (kind : TaskKind) (truth : Option Truth)
    (budget : Budget) (stamp : Stamp) (madeId : String) (now : ℚ) :
    ∃ cell, (memory.addTask term kind truth budget stamp madeId now).2 =
        { (memory.addConcept term now).2 with cell } ∧
      ∀ object, (cell object).term = ((memory.addConcept term now).2.cell object).term := by
  unfold addTask
  obtain ⟨added, left⟩ := memory.addConcept term now
  refine ⟨_, rfl, ?_⟩
  intro object
  by_cases same : object = added
  · subst same
    rw [Function.update_self]
  · rw [Function.update_of_ne same]

theorem WellFormed.of_cell (formed : WellFormed config memory) {cell}
    (same : ∀ object, (cell object).term = (memory.cell object).term) :
    WellFormed config { memory with cell } := by
  refine ⟨formed.configured, ?_, ?_⟩
  · intro key object found
    obtain ⟨isMade, itsKey⟩ := formed.resident found
    exact ⟨isMade, by rw [same, itsKey]⟩
  · intro term object found
    obtain ⟨isMade, itsTerm⟩ := formed.stored found
    exact ⟨isMade, by rw [same, itsTerm]⟩

theorem coherent_cell_iff {cell} : Coherent { memory with cell } ↔ Coherent memory :=
  ⟨fun coherent => ⟨⟨coherent.bounded, coherent.indexed, coherent.focused⟩, coherent.apart⟩,
    fun coherent => ⟨⟨coherent.bounded, coherent.indexed, coherent.focused⟩, coherent.apart⟩⟩

/-! ### The archive -/

theorem get_setLast {Key} [DecidableEq Key] {map : OrderedMap Key Value}
    {maxSize key name value other} (found : (setLast map maxSize key value).get name = some other) :
    map.get name = some other ∨ name = key ∧ other = value := by
  have setIn {left : OrderedMap Key Value} (fewer : ∀ {other}, left.get name = some other →
      map.get name = some other) (there : (left.set key value).get name = some other) :
      map.get name = some other ∨ name = key ∧ other = value := by
    rw [OrderedMap.get_set] at there
    split at there
    · next same => exact .inr ⟨same, (Option.some.inj there).symm⟩
    · exact .inl (fewer there)
  have deleted {gone : Key} {other : Value} (there : (map.delete gone).get name = some other) :
      map.get name = some other := by
    rw [OrderedMap.get_delete] at there
    split at there
    · cases there
    · exact there
  unfold setLast at found
  split at found
  · exact setIn deleted found
  · split at found
    · split at found
      · exact setIn deleted found
      · exact setIn id found
    · exact setIn id found

/-- The memory whose archive has a concept object under its term. -/
def withArchived (memory : Memory) (object : ℕ) : Memory :=
  { memory with
    archived := setLast memory.archived (max 1 memory.config.archiveMaxConcepts)
      (memory.cell object).term object }

theorem archiveConcept_of_enabled (enabled : memory.config.enableArchive = true)
    (object : ℕ) : (memory.archiveConcept object).2 =
      ((memory.withArchived object).removeConcept (memory.cell object).term.key).2 := by
  unfold archiveConcept
  rw [if_pos enabled]
  rfl

theorem archiveConcept_of_disabled
    (disabled : memory.config.enableArchive ≠ true) (object : ℕ) :
    (memory.archiveConcept object).2 = memory := by
  unfold archiveConcept
  rw [if_neg disabled]

theorem WellFormed.withArchived (formed : WellFormed config memory) {object}
    (isMade : object < memory.made) : WellFormed config (memory.withArchived object) := by
  refine ⟨formed.configured, formed.resident, ?_⟩
  intro term other found
  rcases get_setLast found with old | ⟨rfl, rfl⟩
  · exact formed.stored old
  · exact ⟨isMade, rfl⟩

theorem WellFormed.archiveConcept (formed : WellFormed config memory) {object}
    (isMade : object < memory.made) : WellFormed config (memory.archiveConcept object).2 := by
  by_cases enabled : memory.config.enableArchive = true
  · rw [archiveConcept_of_enabled enabled]
    exact (formed.withArchived isMade).removeConcept _
  · rw [archiveConcept_of_disabled enabled]
    exact formed

theorem made_archiveConcept (memory : Memory) (object : ℕ) :
    (memory.archiveConcept object).2.made = memory.made := by
  by_cases enabled : memory.config.enableArchive = true
  · rw [archiveConcept_of_enabled enabled]
    obtain ⟨concepts, index, focus, same, _⟩ :=
      removeConcept_eq (memory.withArchived object) (memory.cell object).term.key
    rw [same]
    rfl
  · rw [archiveConcept_of_disabled enabled]

theorem Coherent.archiveConcept (coherent : Coherent memory) (formed : WellFormed config memory)
    {object} (isMade : object < memory.made) : Coherent (memory.archiveConcept object).2 := by
  by_cases enabled : memory.config.enableArchive = true
  · rw [archiveConcept_of_enabled enabled]
    have inStep : InStep (memory.withArchived object) :=
      ⟨coherent.bounded, coherent.indexed, coherent.focused⟩
    refine ⟨inStep.removeConcept (formed.withArchived isMade) _, ?_⟩
    intro term other found
    rw [archived_removeConcept] at found
    rw [get_removeConcept]
    rcases get_setLast found with old | ⟨rfl, rfl⟩
    · have absent : (memory.withArchived object).concepts.get term.key = none :=
        coherent.apart old
      rw [absent, ite_self]
    · exact if_pos rfl
  · rw [archiveConcept_of_disabled enabled]
    exact coherent

theorem retrieveFromArchive_of_get (enabled : memory.config.enableArchive = true)
    (found : memory.archived.get term = some object) (now : ℚ) :
    (memory.retrieveFromArchive term now).2 =
      adoptConcept { memory with archived := memory.archived.delete term } object now := by
  unfold retrieveFromArchive
  rw [if_pos enabled, found]

theorem retrieveFromArchive_of_nothing
    (nothing : memory.config.enableArchive = true → memory.archived.get term = none) (now : ℚ) :
    (memory.retrieveFromArchive term now).2 = memory := by
  unfold retrieveFromArchive
  split
  · next enabled => rw [nothing enabled]
  · rfl

/-- A concept may come back from the archive: there is room, and the archive has its key under no
other term. -/
def MayReturn (memory : Memory) (term : TermRef) : Prop :=
  memory.config.enableArchive = true → memory.archived.get term ≠ none →
    memory.concepts.size < memory.config.maxConcepts ∧
      ∀ other, other ≠ term → other.key = term.key → memory.archived.get other = none

theorem WellFormed.deleteArchived (formed : WellFormed config memory) (term : TermRef) :
    WellFormed config { memory with archived := memory.archived.delete term } := by
  refine ⟨formed.configured, formed.resident, ?_⟩
  intro other object found
  rw [OrderedMap.get_delete] at found
  split at found
  · cases found
  · exact formed.stored found

theorem WellFormed.retrieveFromArchive (formed : WellFormed config memory)
    (term : TermRef) (now : ℚ) : WellFormed config (memory.retrieveFromArchive term now).2 := by
  by_cases nothing : memory.config.enableArchive = true → memory.archived.get term = none
  · rw [retrieveFromArchive_of_nothing nothing]
    exact formed
  · push Not at nothing
    obtain ⟨enabled, there⟩ := nothing
    obtain ⟨object, found⟩ := Option.ne_none_iff_exists'.mp there
    rw [retrieveFromArchive_of_get enabled found]
    exact (formed.deleteArchived term).adoptConcept (formed.stored found).1 now

theorem coherent_retrieveFromArchive_iff (formed : WellFormed config memory)
    (coherent : Coherent memory) (term : TermRef) (now : ℚ) :
    Coherent (memory.retrieveFromArchive term now).2 ↔ MayReturn memory term := by
  by_cases nothing : memory.config.enableArchive = true → memory.archived.get term = none
  · rw [retrieveFromArchive_of_nothing nothing]
    exact iff_of_true coherent fun enabled there => absurd (nothing enabled) there
  · push Not at nothing
    obtain ⟨enabled, there⟩ := nothing
    obtain ⟨object, found⟩ := Option.ne_none_iff_exists'.mp there
    have itsTerm := (formed.stored found).2
    have taken : Coherent { memory with archived := memory.archived.delete term } := by
      refine ⟨⟨coherent.bounded, coherent.indexed, coherent.focused⟩, ?_⟩
      intro other object kept
      rw [OrderedMap.get_delete] at kept
      split at kept
      · cases kept
      · exact coherent.apart kept
    have absent : memory.concepts.get (memory.cell object).term.key = none := by
      rw [itsTerm]
      exact coherent.apart found
    rw [retrieveFromArchive_of_get enabled found, coherent_adoptConcept_iff taken absent]
    unfold MayReturn Unarchived
    simp only [itsTerm, OrderedMap.get_delete, enabled, there, forall_const, ne_eq,
      not_false_eq_true]
    refine and_congr_right fun _ => forall_congr' fun other => ?_
    by_cases same : other = term
    · simp [same]
    · simp [same]

/-! ### Consolidating -/

theorem WellFormed.attend (formed : WellFormed config memory) (attention : ℕ → ℚ) :
    WellFormed config (memory.attend attention) := by
  refine formed.of_cell fun object => ?_
  split <;> rfl

theorem Coherent.attend (coherent : Coherent memory) (attention : ℕ → ℚ) :
    Coherent (memory.attend attention) :=
  coherent_cell_iff.mpr coherent

section

variable {holds : Memory → Prop}

theorem archiveAll_keeps
    (archives : ∀ {memory : Memory} {object : ℕ}, holds memory → object < memory.made →
      holds (memory.archiveConcept object).2) {memory} (starts : holds memory) {objects}
    (areMade : ∀ object ∈ objects, object < memory.made) : holds (memory.archiveAll objects) := by
  have kept : holds (memory.archiveAll objects) ∧
      (memory.archiveAll objects).made = memory.made := by
    refine List.foldlRecOn (motive := fun left => holds left ∧ left.made = memory.made) objects _
      ⟨starts, rfl⟩ ?_
    rintro left ⟨leftHolds, sameMade⟩ object member
    have isMade : object < left.made := by
      rw [sameMade]
      exact areMade object member
    exact ⟨archives leftHolds isMade, by rw [made_archiveConcept, sameMade]⟩
  exact kept.1

theorem removeAll_keeps
    (removes : ∀ {memory : Memory} {key : String}, holds memory →
      holds (memory.removeConcept key).2)
    {memory : Memory} (starts : holds memory) (keys : List String) :
    holds (memory.removeAll keys) :=
  List.foldlRecOn keys _ starts fun _ leftHolds _ _ => removes leftHolds

theorem evictUnderPressure_keeps
    (archives : ∀ {memory : Memory} {object : ℕ}, holds memory → object < memory.made →
      holds (memory.archiveConcept object).2)
    (removes : ∀ {memory : Memory} {key : String}, holds memory →
      holds (memory.removeConcept key).2) {memory} (formed : WellFormed config memory)
    (starts : holds memory) : holds memory.evictUnderPressure := by
  unfold Memory.evictUnderPressure
  simp only
  split
  · exact starts
  · generalize chosen : shareOf _ _ = archivedNow
    have left : holds (memory.archiveAll archivedNow) := by
      refine archiveAll_keeps archives starts fun object member => ?_
      subst chosen
      have idle := (Comparison.mem_toSorted).mp (List.mem_of_mem_take member)
      exact (formed.resident (formed.get_of_listed (List.mem_of_mem_filter idle))).1
    split
    · exact left
    · exact removeAll_keeps removes left _

end

theorem updateAllFocus_eq (memory : Memory) :
    ∃ focus, memory.updateAllFocus = { memory with focus } := by
  refine List.foldlRecOn (motive := fun left => ∃ focus, left = { memory with focus }) _ _
    ⟨.empty, rfl⟩ ?_
  rintro left ⟨focus, rfl⟩ object _
  obtain ⟨further, same, _⟩ := addToFocus_eq { memory with focus } object
  exact ⟨further, same⟩

theorem WellFormed.updateAllFocus (formed : WellFormed config memory) :
    WellFormed config memory.updateAllFocus := by
  obtain ⟨focus, same⟩ := updateAllFocus_eq memory
  rw [same]
  exact ⟨formed.configured, formed.resident, formed.stored⟩

theorem Coherent.updateAllFocus (coherent : Coherent memory)
    (formed : WellFormed config memory) : Coherent memory.updateAllFocus := by
  have inStep : InStep memory.updateAllFocus := by
    unfold Memory.updateAllFocus
    generalize chosen : selectTopN _ _ _ = highest
    have residents : ∀ object ∈ highest,
        memory.concepts.get (memory.cell object).term.key = some object := by
      subst chosen
      intro object member
      exact formed.get_of_listed (Comparison.mem_toSorted.mp (List.mem_of_mem_take member))
    have kept : InStep (highest.foldl Memory.addToFocus { memory with focus := .empty }) ∧
        ∃ focus, highest.foldl Memory.addToFocus { memory with focus := .empty } =
          { memory with focus } := by
      refine List.foldlRecOn
        (motive := fun left => InStep left ∧ ∃ focus, left = { memory with focus }) highest _
        ⟨⟨coherent.bounded, coherent.indexed, ?_⟩, _, rfl⟩ ?_
      · rintro key object ⟨⟩
      · rintro left ⟨leftInStep, focus, rfl⟩ object member
        obtain ⟨further, same, _⟩ := addToFocus_eq { memory with focus } object
        exact ⟨leftInStep.addToFocus (residents object member), further, same⟩
    exact kept.1
  obtain ⟨focus, same⟩ := updateAllFocus_eq memory
  refine ⟨inStep, ?_⟩
  rw [same]
  exact coherent.apart

theorem WellFormed.evictUnderPressure (formed : WellFormed config memory) :
    WellFormed config memory.evictUnderPressure :=
  evictUnderPressure_keeps (fun left isMade => left.archiveConcept isMade)
    (fun left => left.removeConcept _) formed formed

theorem Coherent.evictUnderPressure (coherent : Coherent memory)
    (formed : WellFormed config memory) : Coherent memory.evictUnderPressure := by
  have both : WellFormed config memory.evictUnderPressure ∧ Coherent memory.evictUnderPressure := by
    refine @evictUnderPressure_keeps _ (fun memory => WellFormed config memory ∧ Coherent memory)
      ?_ ?_ _ formed ⟨formed, coherent⟩
    · rintro left object ⟨leftFormed, leftCoherent⟩ isMade
      exact ⟨leftFormed.archiveConcept isMade, leftCoherent.archiveConcept leftFormed isMade⟩
    · rintro left key ⟨leftFormed, leftCoherent⟩
      exact ⟨leftFormed.removeConcept key, leftCoherent.removeConcept leftFormed key⟩
  exact both.2

theorem WellFormed.consolidate (formed : WellFormed config memory)
    (attention : ℕ → ℚ) : WellFormed config (memory.consolidate attention) := by
  unfold Memory.consolidate
  simp only
  split
  · exact ⟨formed.configured, formed.resident, formed.stored⟩
  · have restarted : WellFormed config { memory with cyclesSinceConsolidation := 0 } :=
      ⟨formed.configured, formed.resident, formed.stored⟩
    exact (restarted.attend attention).evictUnderPressure.updateAllFocus

theorem Coherent.consolidate (coherent : Coherent memory)
    (formed : WellFormed config memory) (attention : ℕ → ℚ) :
    Coherent (memory.consolidate attention) := by
  unfold Memory.consolidate
  simp only
  split
  · exact ⟨⟨coherent.bounded, coherent.indexed, coherent.focused⟩, coherent.apart⟩
  · have formedAfresh : WellFormed config { memory with cyclesSinceConsolidation := 0 } :=
      ⟨formed.configured, formed.resident, formed.stored⟩
    have afresh : Coherent { memory with cyclesSinceConsolidation := 0 } :=
      ⟨⟨coherent.bounded, coherent.indexed, coherent.focused⟩, coherent.apart⟩
    have attended := formedAfresh.attend attention
    exact ((afresh.attend attention).evictUnderPressure attended).updateAllFocus
      attended.evictUnderPressure

theorem WellFormed.clear (formed : WellFormed config memory) :
    WellFormed config memory.clear := by
  refine ⟨formed.configured, ?_, ?_⟩
  · rintro key object ⟨⟩
  · intro term object found
    unfold Memory.clear at found
    simp only at found
    split at found
    · cases found
    · exact formed.stored found

theorem coherent_clear (memory : Memory) : Coherent memory.clear := by
  refine ⟨⟨Nat.zero_le _, ?_, ?_⟩, ?_⟩
  · intro enabled key object
    have emptied : memory.clear.index = {} := if_pos enabled
    rw [emptied]
    constructor
    · rintro ⟨bucket, ⟨⟩, _⟩
    · rintro ⟨⟩
  · rintro key object ⟨⟩
  · intro term object _
    rfl

/-! ### The result -/

theorem wellFormed_newMemory (config : MemoryConfig) : WellFormed config (newMemory config) := by
  refine ⟨rfl, ?_, ?_⟩
  · rintro key object ⟨⟩
  · rintro term object ⟨⟩

theorem coherent_newMemory (config : MemoryConfig) : Coherent (newMemory config) := by
  refine ⟨⟨Nat.zero_le _, ?_, ?_⟩, ?_⟩
  · intro _ key object
    constructor
    · rintro ⟨bucket, ⟨⟩, _⟩
    · rintro ⟨⟩
  · rintro key object ⟨⟩
  · rintro term object ⟨⟩

/-- A step keeps the parts in agreement: where a term comes in, it is resident or not in the
archive, and where a concept comes back, it may return. -/
def StaysCoherent (memory : Memory) : MemoryEvent → Prop
  | .addConcept term _ => memory.concepts.get term.key ≠ none ∨ Unarchived memory term.key
  | .addTask term _ _ _ _ _ _ => memory.concepts.get term.key ≠ none ∨ Unarchived memory term.key
  | .retrieveFromArchive term _ => MayReturn memory term
  | _ => True

theorem archiveConcept_of_step (step : memoryStep memory (.archiveConcept object) = some next) :
    object < memory.made ∧ (memory.archiveConcept object).2 = next := by
  simpa [memoryStep] using step

theorem wellFormed_step {event} (formed : WellFormed config memory)
    (step : memoryStep memory event = some next) : WellFormed config next := by
  cases event with
  | addConcept term now =>
    cases step
    exact formed.addConcept term now
  | addTask term kind truth budget stamp madeId now =>
    cases step
    obtain ⟨cell, same, sameTerm⟩ := addTask_eq memory term kind truth budget stamp madeId now
    rw [same]
    exact (formed.addConcept term now).of_cell sameTerm
  | removeConcept term =>
    cases step
    exact formed.removeConcept term.key
  | archiveConcept object =>
    obtain ⟨isMade, rfl⟩ := archiveConcept_of_step step
    exact formed.archiveConcept isMade
  | retrieveFromArchive term now =>
    cases step
    exact formed.retrieveFromArchive term now
  | consolidate attention =>
    cases step
    exact formed.consolidate attention
  | clear =>
    cases step
    exact formed.clear

theorem staysCoherent_iff {event} (formed : WellFormed config memory)
    (room : 1 ≤ config.maxConcepts) (coherent : Coherent memory)
    (step : memoryStep memory event = some next) : StaysCoherent memory event ↔ Coherent next := by
  cases event with
  | addConcept term now =>
    cases step
    exact (coherent_addConcept_iff formed room coherent term now).symm
  | addTask term kind truth budget stamp madeId now =>
    cases step
    obtain ⟨cell, same, _⟩ := addTask_eq memory term kind truth budget stamp madeId now
    rw [same, coherent_cell_iff]
    exact (coherent_addConcept_iff formed room coherent term now).symm
  | removeConcept term =>
    cases step
    exact iff_of_true trivial (coherent.removeConcept formed term.key)
  | archiveConcept object =>
    obtain ⟨isMade, rfl⟩ := archiveConcept_of_step step
    exact iff_of_true trivial (coherent.archiveConcept formed isMade)
  | retrieveFromArchive term now =>
    cases step
    exact (coherent_retrieveFromArchive_iff formed coherent term now).symm
  | consolidate attention =>
    cases step
    exact iff_of_true trivial (coherent.consolidate formed attention)
  | clear =>
    cases step
    exact iff_of_true trivial (coherent_clear memory)

/-- The parts of a memory agree in all it goes through, exactly where no step brings a term in that
is in the archive, or a concept back that has no place. -/
theorem coherent_throughout_iff {events : List MemoryEvent} {last : Memory}
    (room : 1 ≤ config.maxConcepts) (run : Run memoryStep (newMemory config) events last) :
    (∀ reached, Run.Passes memoryStep (newMemory config) events reached → Coherent reached) ↔
      Run.Meets memoryStep StaysCoherent (newMemory config) events := by
  have agree (memory : Memory) (event : MemoryEvent) (next : Memory)
      (formed : WellFormed config memory) (coherent : Coherent memory)
      (step : memoryStep memory event = some next) :
      StaysCoherent memory event ↔ Coherent next := staysCoherent_iff formed room coherent step
  have keeps (memory : Memory) (event : MemoryEvent) (next : Memory)
      (formed : WellFormed config memory) (_ : StaysCoherent memory event)
      (step : memoryStep memory event = some next) :
      WellFormed config next := wellFormed_step formed step
  exact (Run.meets_iff_passes_of_keeps agree keeps run (wellFormed_newMemory config)
    (coherent_newMemory config)).symm

/-- A concept that is archived, brought back and added again. -/
theorem coherent_throughout_there_and_back :
    Run.Meets memoryStep StaysCoherent (newMemory { maxConcepts := 1 })
        [.addConcept ⟨0, .atom "bird"⟩ 0, .archiveConcept 0,
          .retrieveFromArchive ⟨0, .atom "bird"⟩ 1, .addConcept ⟨1, .atom "bird"⟩ 2] ∧
      ∀ reached, Run.Passes memoryStep (newMemory { maxConcepts := 1 })
        [.addConcept ⟨0, .atom "bird"⟩ 0, .archiveConcept 0,
          .retrieveFromArchive ⟨0, .atom "bird"⟩ 1, .addConcept ⟨1, .atom "bird"⟩ 2] reached →
        Coherent reached := by
  have meets : Run.Meets memoryStep StaysCoherent (newMemory { maxConcepts := 1 })
      [.addConcept ⟨0, .atom "bird"⟩ 0, .archiveConcept 0,
        .retrieveFromArchive ⟨0, .atom "bird"⟩ 1, .addConcept ⟨1, .atom "bird"⟩ 2] := by
    refine .cons (.inr ?_) rfl (.cons trivial rfl (.cons ?_ rfl (.cons (.inl ?_) rfl (.nil _))))
    · intro term _
      rfl
    · intro _ _
      refine ⟨by decide, fun other different _ => ?_⟩
      exact if_neg (Ne.symm different)
    · decide
  exact ⟨meets, (coherent_throughout_iff (by decide)
    (.cons rfl (.cons rfl (.cons rfl (.cons rfl (.nil _)))))).mpr meets⟩

/-- A term is both resident and archived once its archived concept was made anew. -/
theorem term_resident_and_archived :
    ¬ ∀ (config : MemoryConfig) (events : List MemoryEvent) (last : Memory),
      1 ≤ config.maxConcepts → Run memoryStep (newMemory config) events last →
        ∀ reached, Run.Passes memoryStep (newMemory config) events reached →
          Coherent reached := by
  intro holds
  have run {events : List MemoryEvent} {last : Memory}
      (done : execute memoryStep (newMemory {}) events = some last) : Coherent last :=
    holds {} events last (by decide) (run_of_execute done) last
      ⟨events, [], (List.append_nil _).symm, run_of_execute done⟩
  have coherent := @run [.addConcept ⟨0, .atom "bird"⟩ 0, .archiveConcept 0,
    .addConcept ⟨0, .atom "bird"⟩ 1] _ rfl
  have gone := @Coherent.apart _ coherent ⟨0, .atom "bird"⟩ 0 rfl
  cases gone

end Senars.Memory
