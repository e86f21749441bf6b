/-
This file is about merging concepts. A concept adds its own tasks to its own bags too,
while it walks them: a bag that is not empty is filled with copies of its tasks of the
highest priority, before any task of the others comes in. So merging keeps each task once
only where the bag is empty, or where the others' higher tasks leave no room for a copy.
-/

import Senars.Bag.Ranking
import Mathlib.Data.List.Dedup

namespace Senars.Memory

open Library Bag PriorityBag

variable {Task : Type} {priority : Task → ℚ} {own : PriorityBag Task}

/-- The kinds of tasks a concept has a bag for. -/
inductive TaskKind where
  | belief
  | goal
  | question
  deriving DecidableEq

/-- A concept: its bags and its attention. -/
structure Concept (Task : Type) where
  beliefBag : PriorityBag Task
  goalBag : PriorityBag Task
  questionBag : PriorityBag Task
  priority : ℚ
  deriving DecidableEq

/-- The bag of a kind. -/
def Concept.bag (concept : Concept Task) : TaskKind → PriorityBag Task
  | .belief => concept.beliefBag
  | .goal => concept.goalBag
  | .question => concept.questionBag

/-- Add the items of a bag to the bag itself from an index on. The list is read as it is at the
time, so the walk goes on to what it puts in behind the index; it takes as many steps as fuel is
given. -/
def addOwn (priority : Task → ℚ) (now : ℚ) : ℕ → ℕ → PriorityBag Task → PriorityBag Task
  | 0, _, bag => bag
  | steps + 1, index, bag =>
    match bag.list[index]? with
    | none => bag
    | some entry => addOwn priority now steps (index + 1) (add priority bag entry.item now).2

/-- Add a concept's tasks to its own bags. -/
def Concept.addOwnTasks (priority : Task → ℚ) (now : ℚ) (concept : Concept Task) : Concept Task :=
  { concept with
    beliefBag := addOwn priority now (concept.beliefBag.capacity + 1) 0 concept.beliefBag
    goalBag := addOwn priority now (concept.goalBag.capacity + 1) 0 concept.goalBag
    questionBag := addOwn priority now (concept.questionBag.capacity + 1) 0 concept.questionBag }

/-- Add another concept's tasks to a concept's bags. -/
def Concept.addTasksOf (priority : Task → ℚ) (now : ℚ) (concept other : Concept Task) :
    Concept Task :=
  { concept with
    beliefBag := addAll priority now concept.beliefBag other.beliefBag.items
    goalBag := addAll priority now concept.goalBag other.goalBag.items
    questionBag := addAll priority now concept.questionBag other.questionBag.items }

/-- Merge other concepts into a concept: the tasks of all, the concept itself first, and the highest
attention. -/
def Concept.mergeWith (priority : Task → ℚ) (now : ℚ) (concept : Concept Task)
    (others : List (Concept Task)) : Concept Task :=
  { others.foldl (Concept.addTasksOf priority now) (concept.addOwnTasks priority now) with
    priority := max 0 (min 1
      ((others.map Concept.priority).foldl max concept.priority)) }

/-! ### Walking a bag while adding to it -/

/-- The first of a list that is repeated over and over. -/
def cycled (tasks : List Task) (count : ℕ) : List Task :=
  (List.range count).filterMap fun index => tasks[index % tasks.length]?

theorem cycled_succ (tasks : List Task) (count : ℕ) :
    cycled tasks (count + 1) = cycled tasks count ++ (tasks[count % tasks.length]?).toList := by
  unfold cycled
  rw [List.range_succ, List.filterMap_append]
  congr 1

variable {tasks brought : List Task} {count : ℕ} {level : ℚ}

theorem mem_cycled {task} (member : task ∈ cycled tasks count) : task ∈ tasks := by
  obtain ⟨index, _, found⟩ := List.mem_filterMap.mp member
  exact List.mem_of_getElem? found

theorem getElem?_mod_of_ne_nil (nonempty : tasks ≠ []) (index : ℕ) :
    ∃ task, tasks[index % tasks.length]? = some task := by
  have inside := Nat.mod_lt index (List.length_pos_of_ne_nil nonempty)
  exact ⟨_, List.getElem?_eq_getElem inside⟩

theorem length_cycled (nonempty : tasks ≠ []) (count : ℕ) :
    (cycled tasks count).length = count := by
  induction count with
  | zero => rfl
  | succ count ih =>
    obtain ⟨task, found⟩ := getElem?_mod_of_ne_nil nonempty count
    rw [cycled_succ, List.length_append, ih, found]
    rfl

theorem cycled_add (tasks : List Task) (count more : ℕ) :
    ∃ rest, cycled tasks (count + more) = cycled tasks count ++ rest := by
  induction more with
  | zero => exact ⟨[], by rw [Nat.add_zero, List.append_nil]⟩
  | succ more ih =>
    obtain ⟨rest, same⟩ := ih
    exact ⟨_, by rw [← Nat.add_assoc, cycled_succ, same, List.append_assoc]⟩

theorem take_cycled (nonempty : tasks ≠ []) {total} (within : count ≤ total) :
    (cycled tasks total).take count = cycled tasks count := by
  obtain ⟨more, rfl⟩ := Nat.exists_eq_add_of_le within
  obtain ⟨rest, same⟩ := cycled_add tasks count more
  rw [same, List.take_append_of_le_length (by rw [length_cycled nonempty]),
    List.take_of_length_le (by rw [length_cycled nonempty])]

theorem cycled_of_le (within : count ≤ tasks.length) : cycled tasks count = tasks.take count := by
  induction count with
  | zero => rfl
  | succ count ih =>
    rw [cycled_succ, ih (by omega), Nat.mod_eq_of_lt (by omega),
      List.getElem?_eq_getElem (by omega), Option.toList_some, List.take_succ_eq_append_getElem]

theorem getElem?_cycled (nonempty : tasks ≠ []) {index} (within : index < count) :
    (cycled tasks count)[index]? = tasks[index % tasks.length]? := by
  obtain ⟨task, found⟩ := getElem?_mod_of_ne_nil nonempty index
  have first := take_cycled nonempty (Nat.succ_le_of_lt within)
  rw [cycled_succ, found] at first
  rw [found, ← List.getElem?_take_of_lt (Nat.lt_succ_self index), first,
    List.getElem?_append_right (by rw [length_cycled nonempty]), length_cycled nonempty,
    Nat.sub_self]
  rfl

theorem nodup_cycled_iff (nonempty : tasks ≠ []) (count : ℕ) :
    (cycled tasks count).Nodup ↔ count ≤ tasks.length ∧ (tasks.take count).Nodup := by
  rcases Nat.lt_or_ge tasks.length count with around | within
  · refine iff_of_false (fun distinct => ?_) (fun both => absurd both.1 (not_le.mpr around))
    have positive := List.length_pos_of_ne_nil nonempty
    have same : (cycled tasks count)[0]? = (cycled tasks count)[tasks.length]? := by
      rw [getElem?_cycled nonempty (by omega), getElem?_cycled nonempty around, Nat.zero_mod,
        Nat.mod_self]
    have inside : tasks.length < (cycled tasks count).length := by rwa [length_cycled nonempty]
    exact absurd ((List.getElem?_inj (by omega) distinct).mp same) (by omega)
  · rw [cycled_of_le within]
    exact ⟨fun distinct => ⟨within, distinct⟩, fun both => both.2⟩

/-! ### A bag that is added to itself -/

theorem top_append (sorted : (byPriority priority).Sorted tasks)
    (highest : ∀ task ∈ tasks, priority task ≤ level) :
    tasks = tasks.filter (fun task => decide (priority task = level)) ++
      tasks.filter fun task => decide (priority task < level) := by
  induction tasks with
  | nil => rfl
  | cons first rest ih =>
    obtain ⟨below, later⟩ := List.pairwise_cons.mp sorted
    have highestLater : ∀ task ∈ rest, priority task ≤ level :=
      fun task member => highest task (List.mem_cons_of_mem _ member)
    rcases (highest first List.mem_cons_self).eq_or_lt with same | lower
    · rw [List.filter_cons_of_pos (by simp [same]), List.filter_cons_of_neg (by simp [same]),
        List.cons_append, ← ih later highestLater]
    · have allLower : ∀ task ∈ rest, priority task < level := fun task member =>
        (byPriority_le.mp (below task member)).trans_lt lower
      rw [List.filter_eq_nil_iff.mpr, List.filter_eq_self.mpr, List.nil_append]
      · intro task member
        rcases List.mem_cons.mp member with rfl | isLater
        · exact decide_eq_true lower
        · exact decide_eq_true (allLower task isLater)
      · intro task member
        rcases List.mem_cons.mp member with rfl | isLater
        · simp [lower.ne]
        · simp [(allLower task isLater).ne]

theorem items_addOwn {rest now steps index} (represents : Represents priority own)
    (nonempty : tasks ≠ []) (top : ∀ task ∈ tasks, priority task = level)
    (lower : ∀ task ∈ rest, priority task < level) (sorted : (byPriority priority).Sorted rest)
    (within : index ≤ own.capacity) (enough : own.capacity < index + steps)
    (items : own.items = (cycled tasks (tasks.length + index) ++ rest).take own.capacity) :
    (addOwn priority now steps index own).items = cycled tasks own.capacity ∧
      Represents priority (addOwn priority now steps index own) ∧
        (addOwn priority now steps index own).capacity = own.capacity := by
  induction steps generalizing own index with
  | zero => omega
  | succ steps ih =>
    have positive := List.length_pos_of_ne_nil nonempty
    rcases within.eq_or_lt with ends | within
    · have fits := represents.fits
      have done : own.list[index]? = none := List.getElem?_eq_none (by omega)
      rw [addOwn]
      simp only [done]
      refine ⟨?_, represents, trivial⟩
      rw [items, List.take_append_of_le_length (by rw [length_cycled nonempty]; omega),
        take_cycled nonempty (by omega)]
    obtain ⟨task, found⟩ := getElem?_mod_of_ne_nil nonempty index
    have here : own.items[index]? = some task := by
      rw [items, List.getElem?_take_of_lt (by omega),
        List.getElem?_append_left (by rw [length_cycled nonempty]; omega),
        getElem?_cycled nonempty (by omega), found]
    obtain ⟨entry, at_index, rfl⟩ := Option.map_eq_some_iff.mp
      ((List.getElem?_map ..).symm.trans here)
    have level_eq : priority entry.item = level := top _ (List.mem_of_getElem? found)
    have allTop : ∀ other ∈ cycled tasks (tasks.length + index), priority other = level :=
      fun other member => top other (mem_cycled member)
    have wholeSorted : (byPriority priority).Sorted
        (cycled tasks (tasks.length + index) ++ rest) := by
      refine List.pairwise_append.mpr ⟨List.pairwise_of_forall_mem_list ?_, sorted, ?_⟩
      · intro one isOne other isOther
        exact byPriority_le.mpr (by rw [allTop one isOne, allTop other isOther])
      · intro one isOne other isOther
        exact byPriority_le.mpr (by rw [allTop one isOne]; exact (lower other isOther).le)
    have parts : (cycled tasks (tasks.length + index) ++ rest).takeWhile
          ((byPriority priority).le · entry.item) = cycled tasks (tasks.length + index) ∧
        (cycled tasks (tasks.length + index) ++ rest).dropWhile
          ((byPriority priority).le · entry.item) = rest := by
      have before : ∀ other ∈ (cycled tasks (tasks.length + index) ++ rest).take
          (cycled tasks (tasks.length + index)).length,
          (byPriority priority).le other entry.item = true := by
        rw [List.take_left]
        intro other member
        exact byPriority_le.mpr (by rw [allTop other member, level_eq])
      have after : ∀ other ∈ (cycled tasks (tasks.length + index) ++ rest).drop
          (cycled tasks (tasks.length + index)).length,
          (byPriority priority).le other entry.item = false := by
        rw [List.drop_left]
        intro other member
        exact decide_eq_false (not_le.mpr (by rw [level_eq]; exact lower other member))
      have split := takeWhile_eq_take before after
      rwa [List.take_left, List.drop_left] at split
    have next : (PriorityBag.add priority own entry.item now).2.items =
        (cycled tasks (tasks.length + (index + 1)) ++ rest).take own.capacity := by
      rw [represents.items_add, items, wholeSorted.take_toSorted_append,
        wholeSorted.toSorted_concat, parts.1, parts.2, ← Nat.add_assoc, cycled_succ,
        Nat.add_mod_left, found, List.append_assoc]
      rfl
    have capacity := Represents.capacity_add priority own entry.item now
    have later := ih (represents.add entry.item now)
      (by rw [capacity]; omega : index + 1 ≤ _) (by rw [capacity]; omega) (by rw [next, capacity])
    rw [addOwn]
    simp only [at_index]
    rwa [capacity] at later

theorem items_addOwn_all (represents : Represents priority own) (now : ℚ) :
    Represents priority (addOwn priority now (own.capacity + 1) 0 own) ∧
      (addOwn priority now (own.capacity + 1) 0 own).capacity = own.capacity ∧
      (own.items = [] ∧ (addOwn priority now (own.capacity + 1) 0 own).items = [] ∨
        ∃ first, own.items.head? = some first ∧
          (addOwn priority now (own.capacity + 1) 0 own).items =
            cycled (own.items.filter fun task => decide (priority task = priority first))
              own.capacity) := by
  cases starts : own.list with
  | nil =>
    have stays : addOwn priority now (own.capacity + 1) 0 own = own := by
      simp only [addOwn, starts, List.getElem?_nil]
    have empty : own.items = [] := by rw [items, starts, List.map_nil]
    rw [stays]
    exact ⟨represents, rfl, .inl ⟨empty, empty⟩⟩
  | cons entry rest =>
    have head : own.items = entry.item :: rest.map (·.item) := by rw [items, starts, List.map_cons]
    have sorted := represents.sorted_items
    have highest : ∀ task ∈ own.items, priority task ≤ priority entry.item := by
      rw [head] at sorted ⊢
      intro task member
      rcases List.mem_cons.mp member with rfl | isLater
      · exact le_rfl
      · exact byPriority_le.mp ((List.pairwise_cons.mp sorted).1 task isLater)
    have split := top_append sorted highest
    have isTop : entry.item ∈
        own.items.filter fun task => decide (priority task = priority entry.item) :=
      List.mem_filter.mpr ⟨by rw [head]; exact List.mem_cons_self, decide_eq_true rfl⟩
    have enough : own.capacity < 0 + (own.capacity + 1) := by omega
    obtain ⟨filled, still, capacity⟩ := items_addOwn represents (List.ne_nil_of_mem isTop)
      (fun task member => of_decide_eq_true (List.mem_filter.mp member).2)
      (fun task member => of_decide_eq_true (List.mem_filter.mp member).2)
      (sorted.sublist List.filter_sublist) (Nat.zero_le _) enough (by
        rw [Nat.add_zero, cycled_of_le le_rfl, List.take_of_length_le le_rfl, ← split,
          List.take_of_length_le (by rw [length_items]; exact represents.fits)])
    exact ⟨still, capacity, .inr ⟨entry.item, by rw [head]; rfl, filled⟩⟩

/-! ### What the others bring -/

theorem toSorted_append_of_level {own more} (same : ∀ task ∈ own, priority task = level) :
    (byPriority priority).toSorted (own ++ more) =
      (byPriority priority).toSorted (more.filter fun task => decide (level < priority task)) ++
        (own ++ (byPriority priority).toSorted
          (more.filter fun task => decide (priority task ≤ level))) := by
  have inHigher : ∀ task ∈ (byPriority priority).toSorted
      (more.filter fun task => decide (level < priority task)), level < priority task :=
    fun task member => of_decide_eq_true (List.mem_filter.mp (Comparison.mem_toSorted.mp member)).2
  have inRest : ∀ task ∈ own ++ (byPriority priority).toSorted
      (more.filter fun task => decide (priority task ≤ level)), priority task ≤ level := by
    intro task member
    rcases List.mem_append.mp member with isOwn | isLower
    · exact (same task isOwn).le
    · exact of_decide_eq_true (List.mem_filter.mp (Comparison.mem_toSorted.mp isLower)).2
  refine ((byPriority priority).toSorted_sorted _).eq_of_filter_tied ?_ fun pivot => ?_
  · refine List.pairwise_append.mpr ⟨(byPriority priority).toSorted_sorted _,
      List.pairwise_append.mpr ⟨List.pairwise_of_forall_mem_list ?_,
        (byPriority priority).toSorted_sorted _, ?_⟩, ?_⟩
    · intro one isOne other isOther
      exact byPriority_le.mpr (by rw [same one isOne, same other isOther])
    · intro one isOne other isOther
      refine byPriority_le.mpr ?_
      rw [same one isOne]
      exact inRest other (List.mem_append_right _ isOther)
    · intro one isOne other isOther
      exact byPriority_le.mpr ((inRest other isOther).trans (inHigher one isOne).le)
  · have tied_iff : ∀ task, (byPriority priority).tied pivot task = true ↔
        priority task = priority pivot := fun task => by
      rw [Comparison.tied_iff, byPriority_le, byPriority_le]
      exact ⟨fun both => le_antisymm both.1 both.2, fun equal => ⟨equal.le, equal.ge⟩⟩
    simp only [Comparison.filter_toSorted, List.filter_append, List.filter_filter]
    rcases lt_or_ge level (priority pivot) with above | below
    · have noOwn : own.filter ((byPriority priority).tied pivot) = [] :=
        List.filter_eq_nil_iff.mpr fun task member tie => by
          have equal := (tied_iff task).mp tie
          rw [same task member] at equal
          exact absurd above (by rw [equal]; exact lt_irrefl _)
      have noLower : more.filter (fun task => (byPriority priority).tied pivot task &&
          decide (priority task ≤ level)) = [] :=
        List.filter_eq_nil_iff.mpr fun task _ both => by
          obtain ⟨tie, low⟩ := Bool.and_eq_true_iff.mp both
          have equal := (tied_iff task).mp tie
          exact absurd (of_decide_eq_true low) (by rw [equal]; exact not_le.mpr above)
      rw [noOwn, noLower, List.append_nil, List.append_nil]
      refine List.filter_congr fun task _ => ?_
      by_cases tie : (byPriority priority).tied pivot task = true
      · rw [tie, (tied_iff task).mp tie, decide_eq_true above]
        rfl
      · rw [Bool.eq_false_iff.mpr tie, Bool.false_and]
    · have noHigher : more.filter (fun task => (byPriority priority).tied pivot task &&
          decide (level < priority task)) = [] :=
        List.filter_eq_nil_iff.mpr fun task _ both => by
          obtain ⟨tie, high⟩ := Bool.and_eq_true_iff.mp both
          have equal := (tied_iff task).mp tie
          exact absurd (of_decide_eq_true high) (by rw [equal]; exact not_lt.mpr below)
      rw [noHigher, List.nil_append]
      congr 1
      refine List.filter_congr fun task _ => ?_
      by_cases tie : (byPriority priority).tied pivot task = true
      · rw [tie, (tied_iff task).mp tie, decide_eq_true below]
        rfl
      · rw [Bool.eq_false_iff.mpr tie, Bool.false_and]

/-! ### Merging -/

/-- The tasks of the others' bags of a kind, in order. -/
def tasksOf (others : List (Concept Task)) (kind : TaskKind) : List Task :=
  others.flatMap fun other => (other.bag kind).items

/-- A merged bag holds no task twice, and all tasks there were if they are no more than its
capacity. -/
def KeepsTasks [DecidableEq Task] (merged : List Task) (capacity : ℕ) (before : List Task) : Prop :=
  merged.Nodup ∧ (before.dedup.length ≤ capacity → ∀ task ∈ before, task ∈ merged)

/-- What a bag holds when it is merged is told apart: it is empty and the first of the others' tasks
are, or the others' higher tasks and its own highest ones fill it and are. -/
def ToldApart (priority : Task → ℚ) (own : List Task) (capacity : ℕ) (brought : List Task) : Prop :=
  own = [] ∧ (((byPriority priority).toSorted brought).take capacity).Nodup ∨
    ∃ first, own.head? = some first ∧
      capacity ≤ (brought.filter fun task => decide (priority first < priority task)).length +
        (own.filter fun task => decide (priority task = priority first)).length ∧
      (((byPriority priority).toSorted (brought.filter fun task =>
        decide (priority first < priority task))).take capacity).Nodup ∧
      ((own.filter fun task => decide (priority task = priority first)).take (capacity -
        (brought.filter fun task => decide (priority first < priority task)).length)).Nodup

theorem bag_foldl_addTasksOf (concept : Concept Task) (others : List (Concept Task)) (now : ℚ)
    (kind : TaskKind) :
    (others.foldl (Concept.addTasksOf priority now) concept).bag kind =
      addAll priority now (concept.bag kind) (tasksOf others kind) := by
  induction others generalizing concept with
  | nil => rfl
  | cons other others ih =>
    have one : (concept.addTasksOf priority now other).bag kind =
        addAll priority now (concept.bag kind) (other.bag kind).items := by
      cases kind <;> rfl
    rw [List.foldl_cons, ih, one, addAll, addAll, ← List.foldl_append]
    rfl

theorem bag_mergeWith (concept : Concept Task) (others : List (Concept Task)) (now : ℚ)
    (kind : TaskKind) :
    (concept.mergeWith priority now others).bag kind =
      addAll priority now
        (addOwn priority now ((concept.bag kind).capacity + 1) 0 (concept.bag kind))
        (tasksOf others kind) := by
  have own : (concept.addOwnTasks priority now).bag kind =
      addOwn priority now ((concept.bag kind).capacity + 1) 0 (concept.bag kind) := by
    cases kind <;> rfl
  have merged : (concept.mergeWith priority now others).bag kind =
      (others.foldl (Concept.addTasksOf priority now)
        (concept.addOwnTasks priority now)).bag kind := by
    cases kind <;> rfl
  rw [merged, bag_foldl_addTasksOf, own]

theorem subset_of_nodup_of_dedup_le [DecidableEq Task] {some all : List Task}
    (distinct : some.Nodup) (among : ∀ task ∈ some, task ∈ all)
    (enough : all.dedup.length ≤ some.length) : ∀ task ∈ all, task ∈ some := by
  have within : some.Subperm all.dedup :=
    distinct.subperm fun task member => List.mem_dedup.mpr (among task member)
  have perm := within.perm_of_length_le enough
  intro task member
  exact perm.symm.subset (List.mem_dedup.mpr member)

theorem keepsTasks_iff_nodup [DecidableEq Task] {own kept capacity}
    (ownFirst : kept = [] ∨ kept.length = capacity) (same : kept = [] → own = [])
    (among : ∀ task ∈ kept, task ∈ own) :
    KeepsTasks (((byPriority priority).toSorted (kept ++ brought)).take capacity) capacity
        (own ++ brought) ↔
      (((byPriority priority).toSorted (kept ++ brought)).take capacity).Nodup := by
  refine ⟨fun keeps => keeps.1, fun distinct => ⟨distinct, fun few => ?_⟩⟩
  have from_all : ∀ task ∈ ((byPriority priority).toSorted (kept ++ brought)).take capacity,
      task ∈ own ++ brought := by
    intro task member
    have inAll := Comparison.mem_toSorted.mp (List.mem_of_mem_take member)
    rcases List.mem_append.mp inAll with isKept | isBrought
    · exact List.mem_append_left _ (among task isKept)
    · exact List.mem_append_right _ isBrought
  rcases Nat.lt_or_ge capacity (kept ++ brought).length with more | fits
  · refine subset_of_nodup_of_dedup_le distinct from_all (few.trans ?_)
    rw [List.length_take, Comparison.length_toSorted]
    omega
  · rcases ownFirst with none | full
    · intro task member
      rw [List.take_of_length_le (by rwa [Comparison.length_toSorted]), Comparison.mem_toSorted,
        none, List.nil_append]
      rwa [same none, List.nil_append] at member
    · refine subset_of_nodup_of_dedup_le distinct from_all (few.trans ?_)
      rw [List.length_take, Comparison.length_toSorted, List.length_append]
      omega

theorem nodup_take_iff {capacity} (nonempty : tasks ≠ [])
    (same : ∀ task ∈ tasks, priority task = level) :
    (((byPriority priority).toSorted (cycled tasks capacity ++ brought)).take capacity).Nodup ↔
      capacity ≤ (brought.filter fun task => decide (level < priority task)).length +
          tasks.length ∧
        (((byPriority priority).toSorted
          (brought.filter fun task => decide (level < priority task))).take capacity).Nodup ∧
        (tasks.take (capacity -
          (brought.filter fun task => decide (level < priority task)).length)).Nodup := by
  have sameCycled : ∀ task ∈ cycled tasks capacity, priority task = level :=
    fun task member => same task (mem_cycled member)
  generalize higher : (brought.filter fun task => decide (level < priority task)) = above
  have first : ((byPriority priority).toSorted (cycled tasks capacity ++ brought)).take capacity =
      ((byPriority priority).toSorted above).take capacity ++
        cycled tasks (capacity - above.length) := by
    rw [toSorted_append_of_level sameCycled, higher, List.take_append, Comparison.length_toSorted,
      List.take_append_of_le_length (by rw [length_cycled nonempty]; omega),
      take_cycled nonempty (Nat.sub_le _ _)]
  have apart : List.Disjoint (((byPriority priority).toSorted above).take capacity)
      (cycled tasks (capacity - above.length)) := by
    intro task isHigher isOwn
    have inAbove := Comparison.mem_toSorted.mp (List.mem_of_mem_take isHigher)
    rw [← higher] at inAbove
    have high : level < priority task := of_decide_eq_true (List.mem_filter.mp inAbove).2
    rw [same task (mem_cycled isOwn)] at high
    exact lt_irrefl _ high
  rw [first, List.nodup_append', nodup_cycled_iff nonempty]
  constructor
  · rintro ⟨distinct, ⟨few, own⟩, _⟩
    exact ⟨by omega, distinct, own⟩
  · rintro ⟨few, distinct, own⟩
    exact ⟨distinct, ⟨by omega, own⟩, apart⟩

/-- Merging other concepts into a concept keeps each task of a kind once, and all that there is room
for, exactly where what its bag holds then is told apart. -/
theorem keepsTasks_mergeWith_iff [DecidableEq Task] {concept : Concept Task}
    (represents : ∀ kind, Represents priority (concept.bag kind)) (others : List (Concept Task))
    (now : ℚ) (kind : TaskKind) :
    KeepsTasks ((concept.mergeWith priority now others).bag kind).items
        (concept.bag kind).capacity ((concept.bag kind).items ++ tasksOf others kind) ↔
      ToldApart priority (concept.bag kind).items (concept.bag kind).capacity
        (tasksOf others kind) := by
  obtain ⟨still, capacity, filling⟩ := items_addOwn_all (represents kind) now
  have merged := (still.addAll now (tasksOf others kind)).2
  rw [bag_mergeWith, merged, capacity]
  rcases filling with ⟨empty, stays⟩ | ⟨first, starts, filled⟩
  · rw [stays, keepsTasks_iff_nodup (.inl rfl) (fun _ => empty) (by rintro task ⟨⟩),
      List.nil_append]
    constructor
    · exact fun distinct => .inl ⟨empty, distinct⟩
    · rintro (⟨_, distinct⟩ | ⟨first, starts, _⟩)
      · exact distinct
      · rw [empty] at starts
        cases starts
  · have isTop : first ∈ (concept.bag kind).items.filter
        fun task => decide (priority task = priority first) :=
      List.mem_filter.mpr ⟨List.mem_of_mem_head? starts, decide_eq_true rfl⟩
    have nonempty := List.ne_nil_of_mem isTop
    rw [filled, keepsTasks_iff_nodup (.inr (length_cycled nonempty _))
      (fun none => by
        have length := length_cycled nonempty (concept.bag kind).capacity
        have fits := (represents kind).fits
        rw [none, List.length_nil] at length
        rw [← length, Nat.le_zero] at fits
        rw [items, List.length_eq_zero_iff.mp fits, List.map_nil])
      (fun task member => List.mem_of_mem_filter (mem_cycled member)),
      nodup_take_iff nonempty fun task member =>
        of_decide_eq_true (List.mem_filter.mp member).2]
    constructor
    · exact fun both => .inr ⟨first, starts, both⟩
    · rintro (⟨empty, _⟩ | ⟨other, same, both⟩)
      · rw [empty] at starts
        cases starts
      · cases Option.some.inj (starts.symm.trans same)
        exact both

/-- A concept of small bags, with the beliefs that are added to it. -/
def believing (beliefs : List ℕ) : Concept ℕ where
  beliefBag := addAll (fun _ => 1) 0 { capacity := 2 } beliefs
  goalBag := { capacity := 2 }
  questionBag := { capacity := 2 }
  priority := 0

theorem represents_believing (beliefs : List ℕ) (kind : TaskKind) :
    Represents (fun _ => 1) ((believing beliefs).bag kind) := by
  have empty : Represents (fun _ : ℕ => 1) { capacity := 2 } := ⟨.nil, Nat.zero_le _, rfl⟩
  cases kind with
  | belief => exact (empty.addAll 0 beliefs).1
  | goal => exact empty
  | question => exact empty

theorem keepsTasks_mergeWith_believing :
    KeepsTasks (((believing []).mergeWith (fun _ => 1) 0 [believing [0, 1]]).bag .belief).items 2
      [0, 1] :=
  (keepsTasks_mergeWith_iff (represents_believing []) [believing [0, 1]] 0 .belief).mpr
    (.inl ⟨rfl, by decide +kernel⟩)

theorem mergeWith_doubles_own_task :
    ¬ ∀ (priority : ℕ → ℚ) (concept : Concept ℕ),
      (∀ kind, Represents priority (concept.bag kind)) →
      ∀ (others : List (Concept ℕ)) (now : ℚ) (kind : TaskKind),
        KeepsTasks ((concept.mergeWith priority now others).bag kind).items
          (concept.bag kind).capacity ((concept.bag kind).items ++ tasksOf others kind) := by
  intro always
  have keeps := always (fun _ => 1) (believing [0]) (represents_believing [0]) [believing [1]] 0
    .belief
  have doubled : ¬ ((((believing [0]).mergeWith (fun _ => 1) 0 [believing [1]]).bag
      .belief).items).Nodup := by decide +kernel
  exact doubled keeps.1

end Senars.Memory
