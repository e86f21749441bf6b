/-
This file says which items a bag holds: after items have been added, the first of all of
them by falling priority, the earlier one of two of the same priority first, as many as the
capacity.
-/

import Senars.Bag.Representation
import Senars.Library.StableSort

namespace Senars.Bag

open Library PriorityBag

variable {Item : Type} {priority : Item → ℚ} {bag : PriorityBag Item}

/-- By falling priority. -/
def byPriority (priority : Item → ℚ) : Comparison Item where
  le first second := decide (priority second ≤ priority first)
  total first second := by
    rw [decide_eq_true_iff, decide_eq_true_iff]
    exact le_total _ _
  trans first second third := by
    rw [decide_eq_true_iff, decide_eq_true_iff, decide_eq_true_iff]
    exact fun before after => after.trans before

theorem byPriority_le {first second : Item} :
    (byPriority priority).le first second = true ↔ priority second ≤ priority first :=
  decide_eq_true_iff

namespace PriorityBag

/-- The items of a bag in order. -/
def items (bag : PriorityBag Item) : List Item := bag.list.map (·.item)

@[simp] theorem length_items (bag : PriorityBag Item) : bag.items.length = bag.list.length :=
  List.length_map _

/-- Add the items of some entries one after the other. -/
def addAll (priority : Item → ℚ) (now : ℚ) (bag : PriorityBag Item) (added : List Item) :
    PriorityBag Item :=
  added.foldl (fun bag item => (add priority bag item now).2) bag

/-- Insert items one after the other, each at its time. -/
def insertAll (priority : Item → ℚ) (bag : PriorityBag Item) (inserted : List (Item × ℚ)) :
    PriorityBag Item :=
  inserted.foldl (fun bag next => (add priority bag next.1 next.2).2) bag

theorem addAll_eq_insertAll (priority : Item → ℚ) (now : ℚ) (bag : PriorityBag Item)
    (added : List Item) :
    addAll priority now bag added = insertAll priority bag (added.map fun item => (item, now)) := by
  rw [addAll, insertAll, List.foldl_map]

end PriorityBag

namespace Represents

theorem sorted_items (represents : Represents priority bag) :
    (byPriority priority).Sorted bag.items := by
  refine List.pairwise_map.mpr ((List.pairwise_map.mp represents.sorted).imp ?_)
  intro first second order
  exact byPriority_le.mpr order

theorem items_admitItem (represents : Represents priority bag) (item : Item) (now : ℚ) :
    (PriorityBag.admitItem priority bag item now).items =
      (byPriority priority).toSorted (bag.items ++ [item]) := by
  obtain ⟨_, above, below⟩ := insertIndex_parts (priority item) represents.sorted
  have list : (PriorityBag.admitItem priority bag item now).list = _ :=
    insertEntry_list priority bag ⟨item, now⟩
  generalize insertIndex priority bag.list (priority item) = idx at above below list
  have before : ∀ other ∈ bag.items.take idx, (byPriority priority).le other item = true := by
    intro other member
    rw [items, ← List.map_take] at member
    obtain ⟨entry, isBefore, rfl⟩ := List.mem_map.mp member
    exact byPriority_le.mpr (above entry isBefore)
  have after : ∀ other ∈ bag.items.drop idx, (byPriority priority).le other item = false := by
    intro other member
    rw [items, ← List.map_drop] at member
    obtain ⟨entry, isAfter, rfl⟩ := List.mem_map.mp member
    exact decide_eq_false (not_le.mpr (below entry isAfter))
  have parts := takeWhile_eq_take before after
  rw [represents.sorted_items.toSorted_concat, parts.1, parts.2, items, list]
  simp [items]

theorem toSorted_concat_of_last_lt {before last item}
    (sorted : (byPriority priority).Sorted (before ++ [last]))
    (lower : priority last < priority item) :
    (byPriority priority).toSorted (before ++ [last] ++ [item]) =
      (byPriority priority).toSorted (before ++ [item]) ++ [last] := by
  refine ((byPriority priority).toSorted_sorted _).eq_of_filter_tied ?_ fun pivot => ?_
  · refine List.pairwise_append.mpr ⟨(byPriority priority).toSorted_sorted _,
      List.pairwise_singleton _ _, fun first isFirst other isOther => ?_⟩
    cases List.mem_singleton.mp isOther
    rcases List.mem_append.mp (Comparison.mem_toSorted.mp isFirst) with isBefore | isItem
    · exact (List.pairwise_append.mp sorted).2.2 first isBefore last List.mem_cons_self
    · cases List.mem_singleton.mp isItem
      exact byPriority_le.mpr lower.le
  · rw [Comparison.filter_toSorted, List.filter_append, List.filter_append, List.filter_append,
      Comparison.filter_toSorted, List.filter_append, List.append_assoc, List.append_assoc]
    by_cases tie : (byPriority priority).tied pivot item = true
    · have apart : (byPriority priority).tied pivot last = false := by
        by_contra also
        rw [Bool.not_eq_false] at also
        exact absurd (byPriority_le.mp (Comparison.le_of_tied _ also tie)) (not_le.mpr lower)
      simp [apart]
    · simp [tie]

theorem items_add (represents : Represents priority bag) (item : Item) (now : ℚ) :
    (PriorityBag.add priority bag item now).2.items =
      ((byPriority priority).toSorted (bag.items ++ [item])).take bag.capacity := by
  have fits := represents.fits
  rcases add_cases priority bag item now with
    ⟨none | ⟨full, last, ends, low⟩, same⟩ | ⟨room, admitted⟩ |
      ⟨last, some, full, ends, high, admitted⟩
  · rw [same, none, List.take_zero]
    rw [none, Nat.le_zero] at fits
    rw [items, List.length_eq_zero_iff.mp fits, List.map_nil]
  · obtain ⟨before, shape⟩ := List.getLast?_eq_some_iff.mp ends
    have sorted : (byPriority priority).Sorted (bag.items ++ [item]) := by
      refine List.pairwise_append.mpr ⟨represents.sorted_items, List.pairwise_singleton _ _,
        fun first isFirst other isOther => ?_⟩
      cases List.mem_singleton.mp isOther
      refine byPriority_le.mpr (low.trans ?_)
      have ordered := represents.sorted_items
      rw [items, shape, List.map_append] at ordered isFirst
      rcases List.mem_append.mp isFirst with isBefore | isLast
      · exact byPriority_le.mp ((List.pairwise_append.mp ordered).2.2 first isBefore last.item
          List.mem_cons_self)
      · cases List.mem_singleton.mp isLast
        exact le_rfl
    rw [same, sorted.toSorted_eq, List.take_append_of_le_length (by rwa [length_items]),
      List.take_of_length_le (by rwa [length_items])]
  · rw [admitted, represents.items_admitItem, List.take_of_length_le]
    rw [Comparison.length_toSorted, List.length_append, length_items]
    exact room
  · obtain ⟨before, shape⟩ := List.getLast?_eq_some_iff.mp ends
    have length : bag.list.length = before.length + 1 := by rw [shape, List.length_append]; rfl
    have dropped : (PriorityBag.dropLast priority
        { bag with totalPriority := bag.totalPriority - priority last.item }).items =
          before.map (·.item) := by
      rw [items, dropLast_list]
      rw [shape, List.dropLast_concat]
    have all : bag.items = before.map (·.item) ++ [last.item] := by
      rw [items, shape, List.map_append]
      rfl
    have sorted := represents.sorted_items
    rw [all] at sorted
    rw [admitted, (represents.dropLast ends).items_admitItem, dropped, all,
      toSorted_concat_of_last_lt sorted high, List.take_append_of_le_length,
      List.take_of_length_le]
    · rw [Comparison.length_toSorted, List.length_append, List.length_map, List.length_singleton]
      omega
    · rw [Comparison.length_toSorted, List.length_append, List.length_map, List.length_singleton]
      omega

@[simp] theorem capacity_add (priority : Item → ℚ) (bag : PriorityBag Item) (item : Item)
    (now : ℚ) : (PriorityBag.add priority bag item now).2.capacity = bag.capacity := by
  rcases add_cases priority bag item now with
    ⟨_, same⟩ | ⟨_, admitted⟩ | ⟨_, _, _, _, _, admitted⟩
  · rw [same]
  · rw [admitted]
    exact insertEntry_capacity _ _ _
  · rw [admitted]
    exact (insertEntry_capacity _ _ _).trans (dropLast_capacity _ _)

theorem insertAll (represents : Represents priority bag) (inserted : List (Item × ℚ)) :
    Represents priority (PriorityBag.insertAll priority bag inserted) ∧
      (PriorityBag.insertAll priority bag inserted).items =
        ((byPriority priority).toSorted (bag.items ++ inserted.map Prod.fst)).take
          bag.capacity := by
  induction inserted generalizing bag with
  | nil =>
    refine ⟨represents, ?_⟩
    rw [List.map_nil, List.append_nil, represents.sorted_items.toSorted_eq, List.take_of_length_le]
    · rfl
    · rw [length_items]
      exact represents.fits
  | cons next inserted ih =>
    obtain ⟨kept, all⟩ := ih (represents.add next.1 next.2)
    refine ⟨kept, all.trans ?_⟩
    rw [represents.items_add, capacity_add,
      ((byPriority priority).toSorted_sorted _).take_toSorted_append,
      Comparison.toSorted_toSorted_append, List.append_assoc, List.singleton_append,
      List.map_cons]

theorem addAll (represents : Represents priority bag) (now : ℚ) (added : List Item) :
    Represents priority (PriorityBag.addAll priority now bag added) ∧
      (PriorityBag.addAll priority now bag added).items =
        ((byPriority priority).toSorted (bag.items ++ added)).take bag.capacity := by
  have inserted := represents.insertAll (added.map fun item => (item, now))
  rw [List.map_map, Function.comp_def, List.map_id'] at inserted
  rw [addAll_eq_insertAll]
  exact inserted

end Represents

/-- Whatever is inserted into an empty bag, it holds the first items of all that were inserted, as
many as its capacity, by falling priority and the earlier one of two of the same priority first. -/
theorem items_of_insertions (priority : Item → ℚ) (capacity : ℕ) (decayRate forgetRate : ℚ)
    (inserted : List (Item × ℚ)) :
    (PriorityBag.insertAll priority (emptyBag priority capacity decayRate forgetRate).bag
        inserted).items =
      ((byPriority priority).toSorted (inserted.map Prod.fst)).take capacity :=
  ((represents_emptyBag priority capacity decayRate forgetRate).insertAll inserted).2

/-- In a bag of two, an item goes before those of less priority and the last of its equals goes. -/
example : (PriorityBag.insertAll (fun item : ℕ => if item = 3 then 2 else 1) { capacity := 2 }
    [(5, 0), (4, 0), (3, 0), (6, 0)]).items = [3, 5] := by
  decide +kernel

end Senars.Bag
