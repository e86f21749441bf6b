/-
This file is the bag a bounded processor accumulates in: a list of items that is kept by
falling priority, takes a new item where there is room or where the last one has less
priority, lets items decay, and forgets the ones that have come to nothing.

An item is known by a serial number, which stands for the object itself, and it has a
name that other items may have too. Nothing the bag does changes a name, and only `add`
brings a new one.
-/

import Senars.Library.JsNumber
import Mathlib.Data.List.Perm.Subperm

namespace Senars.Learning

open Library Library.JsNumber

/-- An item of a bag. The serial number tells objects apart, the id need not. -/
structure BagItem where
  serial : ℕ
  id : String
  priority : JsNumber
  deriving DecidableEq

/-- What stays of an item whatever its priority becomes. -/
def BagItem.name (item : BagItem) : ℕ × String := (item.serial, item.id)

structure PriorityBag where
  capacity : ℕ
  decayRate : JsNumber := .finite (1 / 100)
  forgetRate : JsNumber := .finite (1 / 1000)
  list : List BagItem := []
  deriving DecidableEq

/-- `value * (1 - rate)`. -/
def retain (value rate : JsNumber) : JsNumber := value * (1 - rate)

/-- `capacity > 0 ? clamp01(used / capacity) : 1`. -/
def occupancy (used capacity : ℕ) : JsNumber :=
  if 0 < capacity then JsNumber.max 0 (JsNumber.min 1 (.finite used / .finite capacity)) else 1

namespace PriorityBag

/-- The search for the first index below a priority, by halves; it takes as many steps as there are
places at most. -/
def bisect (store : List BagItem) (priority : JsNumber) : ℕ → ℕ → ℕ → ℕ
  | 0, low, _ => low
  | steps + 1, low, high =>
    if low < high then
      let middle := (low + high) / 2
      match store[middle]? with
      | some item =>
        if lessEq priority item.priority then bisect store priority steps (middle + 1) high
        else bisect store priority steps low middle
      | none => low
    else low

/-- The index an item of a priority is put at. -/
def insertIndex (store : List BagItem) (priority : JsNumber) : ℕ :=
  bisect store priority store.length 0 store.length

def insertEntry (bag : PriorityBag) (item : BagItem) : PriorityBag :=
  { bag with
    list := bag.list.take (insertIndex bag.list item.priority) ++
      item :: bag.list.drop (insertIndex bag.list item.priority) }

/-- The bag with room for a priority, where it is full: the last item goes if it has less. -/
def shouldOverflow (bag : PriorityBag) (priority : JsNumber) : Option PriorityBag :=
  match bag.list.getLast? with
  | none => some bag
  | some last =>
    if lessEq priority last.priority then none else some { bag with list := bag.list.dropLast }

/-- Add an item, which a bag that is full of more important ones does not. -/
def add (bag : PriorityBag) (item : BagItem) : Option PriorityBag :=
  if bag.capacity = 0 then none
  else if bag.capacity ≤ bag.list.length then
    (bag.shouldOverflow item.priority).map (·.insertEntry item)
  else some (bag.insertEntry item)

/-- Remove all items that have one of the ids. -/
def removeAll (bag : PriorityBag) (ids : List String) : PriorityBag :=
  { bag with list := bag.list.filter (·.id ∉ ids) }

/-- The priority of an item after it has decayed. -/
def decayed (bag : PriorityBag) (rate : Option JsNumber) (priority : JsNumber) : JsNumber :=
  let left := retain priority (rate.getD bag.decayRate)
  if less left bag.forgetRate then 0 else left

/-- Let all items decay, and forget those of no priority. -/
def decay (bag : PriorityBag) (rate : Option JsNumber) : PriorityBag :=
  { bag with
    list := (bag.list.map fun item =>
      { item with priority := bag.decayed rate item.priority }).filter fun item =>
        less 0 item.priority }

def pressure (bag : PriorityBag) : JsNumber := occupancy bag.list.length bag.capacity

/-! ### Names -/

/-- The names of the items of a bag. -/
def names (bag : PriorityBag) : List (ℕ × String) := bag.list.map BagItem.name

theorem names_insertEntry (bag : PriorityBag) (item : BagItem) :
    (bag.insertEntry item).names.Perm (item.name :: bag.names) := by
  show (List.map _ (_ ++ _ :: _)).Perm _
  rw [List.map_append]
  refine List.perm_middle.trans (.cons _ ?_)
  rw [← List.map_append, List.take_append_drop]
  exact .refl _

theorem names_add {bag next : PriorityBag} {item} (added : bag.add item = some next) :
    next.names.Subperm (item.name :: bag.names) := by
  unfold add at added
  split at added
  · cases added
  split at added
  · obtain ⟨kept, overflows, rfl⟩ := Option.map_eq_some_iff.mp added
    refine (names_insertEntry kept item).subperm.trans ((List.subperm_cons _).mpr ?_)
    unfold shouldOverflow at overflows
    split at overflows
    · cases overflows
      exact .refl _
    · split at overflows
      · cases overflows
      · cases overflows
        exact ((List.dropLast_sublist bag.list).map _).subperm
  · cases added
    exact (names_insertEntry bag item).subperm

theorem names_decay (bag : PriorityBag) (rate : Option JsNumber) :
    (bag.decay rate).names.Sublist bag.names := by
  have unnamed : bag.names = (bag.list.map fun item =>
      { item with priority := bag.decayed rate item.priority }).map BagItem.name := by
    rw [List.map_map]
    rfl
  rw [unnamed]
  exact List.filter_sublist.map _

theorem names_removeAll (bag : PriorityBag) (ids : List String) :
    (bag.removeAll ids).names = bag.names.filter (·.2 ∉ ids) := by
  show List.map _ (List.filter _ _) = List.filter _ (List.map _ _)
  rw [List.filter_map]
  rfl

end PriorityBag

end Senars.Learning
