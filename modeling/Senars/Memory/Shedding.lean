/-
This file is what a memory sheds under critical pressure. The pass archives a share of the
concepts without tasks and then forgets a share of what it takes to be left. It takes the
concepts it meant to archive to be gone, which they are where the archive is enabled. Where it
is not, they are all resident still, and none of them is a candidate.
-/

import Senars.Memory.Coherence

namespace Senars.Memory

open Library Terms

variable {config : MemoryConfig} {memory : Memory}

/-! ### The stages of a pass -/

/-- The concepts that the pass means to archive. -/
def archivedFirst (memory : Memory) : List ℕ :=
  shareOf ((byScore memory.conceptValue).toSorted
      (memory.listConcepts.filter fun object => (memory.cell object).totalTasks = 0))
    (min (3 / 10) (memory.capacityPressure - 1 / 2))

def afterArchiving (memory : Memory) : Memory := memory.archiveAll memory.archivedFirst

/-- The concepts of which a share is forgotten. -/
def forgetCandidates (memory : Memory) : List ℕ :=
  memory.afterArchiving.evictionOrder.toSorted (memory.listConcepts.filter fun object =>
    object ∉ memory.archivedFirst ∧ memory.afterArchiving.concepts.get
      (memory.afterArchiving.cell object).term.key ≠ none)

def forgotten (memory : Memory) : List ℕ :=
  shareOf memory.forgetCandidates (min (1 / 5) (memory.capacityPressure - 4 / 5))

theorem evictUnderPressure_of_critical (critical : 9 / 10 < memory.capacityPressure) :
    memory.evictUnderPressure = memory.afterArchiving.removeAll
      (memory.forgotten.map fun object => (memory.afterArchiving.cell object).term.key) := by
  have archives : ¬ memory.capacityPressure ≤ 4 / 5 := by linarith
  unfold evictUnderPressure
  rw [if_neg archives, if_neg (not_le.mpr critical)]
  rfl

theorem shareOf_ne_nil {Value} {values : List Value} {fraction} (some : values ≠ [])
    (positive : 0 < fraction) : shareOf values fraction ≠ [] := by
  have long : 0 < values.length := List.length_pos_of_ne_nil some
  have share : 0 < (values.length : ℚ) * fraction := mul_pos (Nat.cast_pos.mpr long) positive
  have atLeastOne : 0 < ⌈(values.length : ℚ) * fraction⌉ := Int.ceil_pos.mpr share
  intro none
  rcases List.take_eq_nil_iff.mp none with zero | noValues
  · omega
  · exact some noValues

/-! ### What archiving and removing leave -/

theorem archiveConcept_keeps_cells (memory : Memory) (object : ℕ) :
    (memory.archiveConcept object).2.cell = memory.cell ∧
      (memory.archiveConcept object).2.config = memory.config := by
  by_cases enabled : memory.config.enableArchive = true
  · obtain ⟨concepts, index, focus, same, _⟩ :=
      removeConcept_eq (memory.withArchived object) (memory.cell object).term.key
    rw [archiveConcept_of_enabled enabled, same]
    exact ⟨rfl, rfl⟩
  · rw [archiveConcept_of_disabled enabled]
    exact ⟨rfl, rfl⟩

theorem cell_archiveAll (memory : Memory) (objects : List ℕ) :
    (memory.archiveAll objects).cell = memory.cell := by
  induction objects generalizing memory with
  | nil => rfl
  | cons object rest ih =>
    exact (ih _).trans (memory.archiveConcept_keeps_cells object).1

theorem get_archiveAll (enabled : memory.config.enableArchive = true) (objects : List ℕ)
    (key : String) : (memory.archiveAll objects).concepts.get key =
      if key ∈ objects.map fun object => (memory.cell object).term.key then none
      else memory.concepts.get key := by
  induction objects generalizing memory with
  | nil => rfl
  | cons object rest ih =>
    obtain ⟨sameCell, sameConfig⟩ := memory.archiveConcept_keeps_cells object
    have stillEnabled : (memory.archiveConcept object).2.config.enableArchive = true := by
      rw [sameConfig, enabled]
    have later := ih stillEnabled
    rw [sameCell, archiveConcept_of_enabled enabled, get_removeConcept] at later
    show (archiveAll (memory.archiveConcept object).2 rest).concepts.get key = _
    rw [archiveConcept_of_enabled enabled, later, List.map_cons]
    by_cases inRest : key ∈ rest.map fun object => (memory.cell object).term.key
    · rw [if_pos inRest, if_pos (List.mem_cons_of_mem _ inRest)]
    · rw [if_neg inRest]
      by_cases here : key = (memory.cell object).term.key
      · rw [if_pos here, if_pos (here ▸ List.mem_cons_self)]
      · rw [if_neg here, if_neg fun inside => (List.mem_cons.mp inside).elim here inRest]
        rfl

theorem archiveAll_of_disabled (disabled : memory.config.enableArchive ≠ true)
    (objects : List ℕ) : memory.archiveAll objects = memory := by
  induction objects with
  | nil => rfl
  | cons object rest ih =>
    show archiveAll (memory.archiveConcept object).2 rest = memory
    rw [archiveConcept_of_disabled disabled, ih]

theorem size_removeConcept_le (memory : Memory) (key : String) :
    (memory.removeConcept key).2.concepts.size ≤ memory.concepts.size := by
  cases found : memory.concepts.get key with
  | none => rw [removeConcept_of_absent found]
  | some object =>
    rw [removeConcept_of_get found]
    exact OrderedMap.size_delete_le _ _

theorem size_removeConcept_lt {key} (resident : memory.concepts.get key ≠ none) :
    (memory.removeConcept key).2.concepts.size < memory.concepts.size := by
  obtain ⟨object, found⟩ := Option.ne_none_iff_exists'.mp resident
  rw [removeConcept_of_get found]
  have shorter := OrderedMap.size_delete found
  show (memory.concepts.delete key).size < memory.concepts.size
  omega

theorem size_archiveConcept_le (memory : Memory) (object : ℕ) :
    (memory.archiveConcept object).2.concepts.size ≤ memory.concepts.size := by
  by_cases enabled : memory.config.enableArchive = true
  · rw [archiveConcept_of_enabled enabled]
    exact size_removeConcept_le _ _
  · rw [archiveConcept_of_disabled enabled]

theorem size_archiveAll_le (memory : Memory) (objects : List ℕ) :
    (memory.archiveAll objects).concepts.size ≤ memory.concepts.size := by
  induction objects generalizing memory with
  | nil => exact le_refl _
  | cons object rest ih =>
    exact (ih _).trans (memory.size_archiveConcept_le object)

theorem size_removeAll_le (memory : Memory) (keys : List String) :
    (memory.removeAll keys).concepts.size ≤ memory.concepts.size := by
  induction keys generalizing memory with
  | nil => exact le_refl _
  | cons key rest ih =>
    exact (ih _).trans (memory.size_removeConcept_le key)

/-! ### Candidates -/

variable {object : ℕ}

theorem mem_listConcepts :
    object ∈ memory.listConcepts ↔ ∃ key, memory.concepts.get key = some object := by
  constructor
  · intro listed
    obtain ⟨⟨key, _⟩, there, rfl⟩ := List.mem_map.mp listed
    exact ⟨key, (OrderedMap.get_eq_some_iff _ _ _).mpr there⟩
  · rintro ⟨key, found⟩
    exact List.mem_map.mpr ⟨(key, object), (OrderedMap.get_eq_some_iff _ _ _).mp found, rfl⟩

theorem mem_of_archivedFirst (first : object ∈ memory.archivedFirst) :
    object ∈ memory.listConcepts ∧ (memory.cell object).totalTasks = 0 := by
  obtain ⟨listed, idle⟩ :=
    List.mem_filter.mp (Comparison.mem_toSorted.mp (List.mem_of_mem_take first))
  exact ⟨listed, of_decide_eq_true idle⟩

theorem archivedFirst_eq_nil_iff (critical : 9 / 10 < memory.capacityPressure) :
    memory.archivedFirst = [] ↔
      ∀ object ∈ memory.listConcepts, 0 < (memory.cell object).totalTasks := by
  constructor
  · intro none object listed
    by_contra idle
    refine shareOf_ne_nil ?_ ?_ none
    · have inside : object ∈ (byScore memory.conceptValue).toSorted
          (memory.listConcepts.filter fun object => (memory.cell object).totalTasks = 0) :=
        Comparison.mem_toSorted.mpr (List.mem_filter.mpr
          ⟨listed, decide_eq_true (Nat.eq_zero_of_not_pos idle)⟩)
      exact List.ne_nil_of_mem inside
    · exact lt_min (by norm_num) (by linarith)
  · intro busy
    refine List.eq_nil_iff_forall_not_mem.mpr fun object first => ?_
    obtain ⟨listed, idle⟩ := mem_of_archivedFirst first
    exact absurd idle (busy object listed).ne'

theorem get_afterArchiving (formed : WellFormed config memory)
    (enabled : memory.config.enableArchive = true) (listed : object ∈ memory.listConcepts) :
    memory.afterArchiving.concepts.get (memory.cell object).term.key =
      if object ∈ memory.archivedFirst then none else some object := by
  have here := formed.get_of_listed listed
  unfold afterArchiving
  rw [get_archiveAll enabled, here]
  by_cases first : object ∈ memory.archivedFirst
  · rw [if_pos first, if_pos (List.mem_map_of_mem first)]
  · rw [if_neg first, if_neg]
    intro inside
    obtain ⟨other, otherFirst, sameKey⟩ := List.mem_map.mp inside
    have there := formed.get_of_listed (mem_of_archivedFirst otherFirst).1
    rw [sameKey, here] at there
    exact first (Option.some.inj there ▸ otherFirst)

theorem mem_forgetCandidates :
    object ∈ memory.forgetCandidates ↔ object ∈ memory.listConcepts ∧
      object ∉ memory.archivedFirst ∧
        memory.afterArchiving.concepts.get (memory.cell object).term.key ≠ none := by
  unfold forgetCandidates
  rw [Comparison.mem_toSorted, List.mem_filter, decide_eq_true_iff]
  unfold afterArchiving
  rw [cell_archiveAll]

/-! ### The result -/

/-- All that is resident after the archiving stage may be forgotten, and the pass removes a
concept. -/
def Sheds (memory : Memory) : Prop :=
  (∀ object, object ∈ memory.forgetCandidates ↔ object ∈ memory.afterArchiving.listConcepts) ∧
    memory.evictUnderPressure.concepts.size < memory.concepts.size

/-- The archive is enabled, or no resident concept is without tasks. -/
def ArchivesIdle (memory : Memory) : Prop :=
  memory.config.enableArchive = true ∨
    ∀ object ∈ memory.listConcepts, 0 < (memory.cell object).totalTasks

theorem candidates_of_archivesIdle (formed : WellFormed config memory)
    (critical : 9 / 10 < memory.capacityPressure) (archives : ArchivesIdle memory) (object : ℕ) :
    object ∈ memory.forgetCandidates ↔ object ∈ memory.afterArchiving.listConcepts := by
  rw [mem_forgetCandidates]
  by_cases enabled : memory.config.enableArchive = true
  · constructor
    · rintro ⟨listed, notFirst, _⟩
      exact mem_listConcepts.mpr
        ⟨_, (get_afterArchiving formed enabled listed).trans (if_neg notFirst)⟩
    · intro stillListed
      obtain ⟨key, found⟩ := mem_listConcepts.mp stillListed
      have before : memory.concepts.get key = some object := by
        unfold afterArchiving at found
        rw [get_archiveAll enabled] at found
        split at found
        · cases found
        · exact found
      have listed := mem_listConcepts.mpr ⟨key, before⟩
      have sameKey := (formed.resident before).2
      have stays := get_afterArchiving formed enabled listed
      rw [sameKey, found] at stays
      have notFirst : object ∉ memory.archivedFirst := fun first => by
        rw [if_pos first] at stays
        cases stays
      exact ⟨listed, notFirst, by rw [sameKey, found]; exact Option.some_ne_none object⟩
  · have none := (archivedFirst_eq_nil_iff critical).mpr (archives.resolve_left enabled)
    unfold afterArchiving
    rw [none]
    constructor
    · exact fun both => both.1
    · intro listed
      refine ⟨listed, List.not_mem_nil, ?_⟩
      show memory.concepts.get (memory.cell object).term.key ≠ _
      rw [formed.get_of_listed listed]
      exact Option.some_ne_none object

theorem size_archiveConcept_lt (formed : WellFormed config memory)
    (enabled : memory.config.enableArchive = true) (listed : object ∈ memory.listConcepts) :
    (memory.archiveConcept object).2.concepts.size < memory.concepts.size := by
  have resident :
      (memory.withArchived object).concepts.get (memory.cell object).term.key ≠ none := by
    show memory.concepts.get _ ≠ none
    rw [formed.get_of_listed listed]
    exact Option.some_ne_none object
  rw [archiveConcept_of_enabled enabled]
  exact size_removeConcept_lt resident

theorem size_evictUnderPressure_lt (formed : WellFormed config memory)
    (critical : 9 / 10 < memory.capacityPressure) (residents : memory.listConcepts ≠ [])
    (archives : ArchivesIdle memory) :
    memory.evictUnderPressure.concepts.size < memory.concepts.size := by
  rw [evictUnderPressure_of_critical critical]
  cases first : memory.archivedFirst with
  | cons object rest =>
    have enabled : memory.config.enableArchive = true := by
      by_contra disabled
      have none := (archivedFirst_eq_nil_iff critical).mpr (archives.resolve_left disabled)
      rw [none] at first
      cases first
    have listed := (mem_of_archivedFirst (first ▸ List.mem_cons_self)).1
    have archived : memory.afterArchiving.concepts.size < memory.concepts.size := by
      unfold afterArchiving
      rw [first]
      exact (size_archiveAll_le _ rest).trans_lt (size_archiveConcept_lt formed enabled listed)
    exact (size_removeAll_le _ _).trans_lt archived
  | nil =>
    have same : memory.afterArchiving = memory := by
      unfold afterArchiving
      rw [first]
      rfl
    obtain ⟨object, listed⟩ := List.exists_mem_of_ne_nil _ residents
    have candidate : object ∈ memory.forgetCandidates := by
      rw [candidates_of_archivesIdle formed critical archives, same]
      exact listed
    have some : memory.forgotten ≠ [] :=
      shareOf_ne_nil (List.ne_nil_of_mem candidate) (lt_min (by norm_num) (by linarith))
    obtain ⟨victim, victims, isForgotten⟩ := List.exists_cons_of_ne_nil some
    have isCandidate : victim ∈ memory.forgetCandidates :=
      List.mem_of_mem_take (isForgotten ▸ List.mem_cons_self)
    have resident := (mem_forgetCandidates.mp isCandidate).2.2
    rw [same] at resident ⊢
    rw [isForgotten]
    exact (size_removeAll_le (memory.removeConcept _).2 _).trans_lt
      (size_removeConcept_lt resident)

theorem archivesIdle_of_sheds (critical : 9 / 10 < memory.capacityPressure)
    (sheds : Sheds memory) : ArchivesIdle memory := by
  by_contra refused
  obtain ⟨disabled, idle⟩ := not_or.mp refused
  have same : memory.afterArchiving = memory := archiveAll_of_disabled disabled _
  obtain ⟨object, first⟩ := List.exists_mem_of_ne_nil _
    (mt (archivedFirst_eq_nil_iff critical).mp idle)
  have candidate := (sheds.1 object).mpr (same.symm ▸ (mem_of_archivedFirst first).1)
  exact (mem_forgetCandidates.mp candidate).2.1 first

/-- For every memory that operations lead to, above the critical pressure and with a resident
concept: all that is resident after archiving may be forgotten and the pass removes a concept,
exactly where the archive is enabled or no resident concept is without tasks. -/
theorem sheds_iff {events : List MemoryEvent}
    (run : Run memoryStep (newMemory config) events memory)
    (critical : 9 / 10 < memory.capacityPressure) (residents : memory.listConcepts ≠ []) :
    Sheds memory ↔ ArchivesIdle memory := by
  have formed : WellFormed config memory :=
    run.keeps (fun _ _ _ held step => wellFormed_step held step) (wellFormed_newMemory config)
  refine ⟨archivesIdle_of_sheds critical, fun archives => ?_⟩
  exact ⟨candidates_of_archivesIdle formed critical archives,
    size_evictUnderPressure_lt formed critical residents archives⟩

theorem sheds_iff_enabled : ∃ memory,
    Run memoryStep (newMemory { maxConcepts := 1 }) [.addConcept ⟨0, .atom "bird"⟩ 0] memory ∧
      Sheds memory := by
  have run : Run memoryStep (newMemory { maxConcepts := 1 }) [.addConcept ⟨0, .atom "bird"⟩ 0] _ :=
    .cons rfl (.nil _)
  exact ⟨_, run, (sheds_iff run (by decide +kernel) (by decide)).mpr (.inl rfl)⟩

/-- A full memory with a disabled archive sheds nothing. -/
theorem nothing_shed : ∃ memory,
    Run memoryStep (newMemory { maxConcepts := 1, enableArchive := false })
        [.addConcept ⟨0, .atom "bird"⟩ 0] memory ∧
      9 / 10 < memory.capacityPressure ∧ memory.listConcepts ≠ [] ∧
        memory.forgetCandidates = [] ∧
          memory.evictUnderPressure.listConcepts = memory.listConcepts :=
  ⟨_, .cons rfl (.nil _), by decide +kernel, by decide, by decide +kernel, by decide +kernel⟩

end Senars.Memory
