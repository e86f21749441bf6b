/-
This file is the priority bag: a list of entries that is kept by falling priority and
never longer than its capacity, with the sum of the priorities beside it and a tree of
partial sums to draw from, which is left stale by what it cannot absorb.

An item is an object. Its priority is kept where the object is, so that an item a bag
holds twice has one priority, and only letting the bag decay changes it.
-/

import Senars.Library.Fenwick
import Senars.Library.Runs
import Mathlib.Data.Rat.Floor

namespace Senars.Bag

open Library

variable {Item : Type}

structure InternalEntry (Item : Type) where
  item : Item
  lastAccessedAt : ℚ
  deriving DecidableEq

structure PriorityBag (Item : Type) where
  capacity : ℕ
  decayRate : ℚ := 1 / 100
  forgetRate : ℚ := 1 / 1000
  totalPriority : ℚ := 0
  list : List (InternalEntry Item) := []
  tree : List ℚ := List.replicate (capacity + 1) 0
  treeStale : Bool := true
  version : ℕ := 0
  deriving DecidableEq

/-- The priorities of the entries of a store, as the items have them now. -/
def weights (priority : Item → ℚ) (store : List (InternalEntry Item)) : List ℚ :=
  store.map fun entry => priority entry.item

/-- `value * (1 - rate)`. -/
def retain (value rate : ℚ) : ℚ := value * (1 - rate)

namespace PriorityBag

/-! ### The store and the tree -/

/-- Fold every change since the tree was last rebuilt into one pass over the store. -/
def syncTree (priority : Item → ℚ) (bag : PriorityBag Item) : PriorityBag Item :=
  if bag.treeStale then
    { bag with
      tree := rebuild bag.tree.length (weights priority bag.list)
      treeStale := false }
  else bag

/-- The search for the first index below a priority, by halves; it takes as many steps as there are
places at most. -/
def bisect (priority : Item → ℚ) (store : List (InternalEntry Item)) (least : ℚ) :
    ℕ → ℕ → ℕ → ℕ
  | 0, low, _ => low
  | steps + 1, low, high =>
    if low < high then
      let middle := (low + high) / 2
      match store[middle]? with
      | some entry =>
        if least ≤ priority entry.item then bisect priority store least steps (middle + 1) high
        else bisect priority store least steps low middle
      | none => low
    else low

def insertIndex (priority : Item → ℚ) (store : List (InternalEntry Item)) (least : ℚ) : ℕ :=
  bisect priority store least store.length 0 store.length

/-- Put an entry at its place. A fresh tree takes an entry at the end; any other leaves it
stale. -/
def insertEntry (priority : Item → ℚ) (bag : PriorityBag Item) (entry : InternalEntry Item) :
    PriorityBag Item :=
  let idx := insertIndex priority bag.list (priority entry.item)
  let list := bag.list.take idx ++ entry :: bag.list.drop idx
  if !bag.treeStale && idx = list.length - 1 then
    { bag with list, tree := addAt bag.tree idx (priority entry.item) }
  else { bag with list, treeStale := true }

def eraseAt (bag : PriorityBag Item) (index : ℕ) : PriorityBag Item :=
  { bag with list := bag.list.eraseIdx index, treeStale := true }

/-- Take the last entry out of the store and, once it is fresh, out of the tree. -/
def dropLast (priority : Item → ℚ) (bag : PriorityBag Item) : PriorityBag Item :=
  match bag.list.getLast? with
  | none => bag
  | some removed =>
    let popped := syncTree priority { bag with list := bag.list.dropLast }
    { popped with tree := addAt popped.tree popped.list.length (-priority removed.item) }

def replaceAll (bag : PriorityBag Item) (entries : List (InternalEntry Item)) :
    PriorityBag Item :=
  { bag with list := entries, treeStale := true }

/-! ### Adding -/

/-- Whether a priority is above the last one of a full bag, whose last entry goes if it is. -/
def shouldOverflow (priority : Item → ℚ) (bag : PriorityBag Item) (least : ℚ) :
    Bool × PriorityBag Item :=
  match bag.list.getLast? with
  | none => (true, bag)
  | some last =>
    if least ≤ priority last.item then (false, bag)
    else (true, dropLast priority
      { bag with totalPriority := bag.totalPriority - priority last.item })

/-- Put an item into a bag that has room for it. -/
def admitItem (priority : Item → ℚ) (bag : PriorityBag Item) (item : Item) (now : ℚ) :
    PriorityBag Item :=
  let inserted := insertEntry priority bag ⟨item, now⟩
  { inserted with
    totalPriority := inserted.totalPriority + priority item
    version := inserted.version + 1 }

/-- Add an item, which a bag that is full of items no less important refuses. -/
def add (priority : Item → ℚ) (bag : PriorityBag Item) (item : Item) (now : ℚ) :
    Bool × PriorityBag Item :=
  if bag.capacity = 0 then (false, bag)
  else if bag.capacity ≤ bag.list.length then
    match shouldOverflow priority bag (priority item) with
    | (false, left) => (false, left)
    | (true, left) => (true, admitItem priority left item now)
  else (true, admitItem priority bag item now)

/-! ### Drawing -/

def recalcTotalPriority (priority : Item → ℚ) (bag : PriorityBag Item) : PriorityBag Item :=
  { bag with totalPriority := (weights priority bag.list).sum }

/-- The index an entry is drawn at by priority, and the bag with a fresh tree. -/
def pickWeighted (priority : Item → ℚ) (bag : PriorityBag Item) (draw : ℚ) :
    ℕ × PriorityBag Item :=
  let synced := syncTree priority bag
  let idx := findByPrefixSum synced.tree (draw * synced.totalPriority) synced.list.length
  (if idx < synced.list.length then idx else 0, synced)

/-- The bag whose entry at an index has been accessed. -/
def touch (bag : PriorityBag Item) (index : ℕ) (now : ℚ) : PriorityBag Item :=
  { bag with list := bag.list.modify index fun entry => { entry with lastAccessedAt := now } }

/-- Draw an item by priority, or the first one where there is no priority at all. -/
def sample (priority : Item → ℚ) (bag : PriorityBag Item) (draw now : ℚ) :
    Option Item × PriorityBag Item :=
  if bag.list = [] then (none, bag)
  else
    let summed := if bag.totalPriority ≤ 0 then recalcTotalPriority priority bag else bag
    if summed.totalPriority ≤ 0 then (summed.list.head?.map (·.item), summed)
    else
      let (idx, synced) := pickWeighted priority summed draw
      (synced.list[idx]?.map (·.item), synced.touch idx now)

/-- Draw as many items as there are draws, and stop where there is none. -/
def sampleMany (priority : Item → ℚ) :
    PriorityBag Item → List (ℚ × ℚ) → List Item × PriorityBag Item
  | bag, [] => ([], bag)
  | bag, (draw, now) :: draws =>
    match sample priority bag draw now with
    | (none, left) => ([], left)
    | (some item, left) =>
      let (items, last) := sampleMany priority left draws
      (item :: items, last)

/-! ### Removing -/

def dropAt (priority : Item → ℚ) (bag : PriorityBag Item) (index : ℕ) : PriorityBag Item :=
  match bag.list[index]? with
  | none => bag
  | some removed =>
    let erased := bag.eraseAt index
    { erased with
      totalPriority := bag.totalPriority - priority removed.item
      version := bag.version + 1 }

/-- The first index of an identifier or of an item itself. -/
def indexOf [DecidableEq Item] (idOf : Item → String) (bag : PriorityBag Item) :
    String ⊕ Item → Option ℕ
  | .inl id => bag.list.findIdx? fun entry => decide (idOf entry.item = id)
  | .inr item => bag.list.findIdx? fun entry => decide (entry.item = item)

def remove [DecidableEq Item] (priority : Item → ℚ) (idOf : Item → String)
    (bag : PriorityBag Item) (idOrItem : String ⊕ Item) : Bool × PriorityBag Item :=
  match indexOf idOf bag idOrItem with
  | none => (false, bag)
  | some idx => (true, dropAt priority bag idx)

/-- Remove all entries whose items have one of the identifiers, in one pass. -/
def removeAll (priority : Item → ℚ) (idOf : Item → String) (bag : PriorityBag Item)
    (ids : List String) : PriorityBag Item :=
  if ids = [] ∨ bag.list = [] then bag
  else
    let kept := bag.list.filter fun entry => idOf entry.item ∉ ids
    if bag.list.length - kept.length = 0 then bag
    else
      let replaced := bag.replaceAll kept
      { replaced with
        totalPriority := (weights priority kept).sum
        version := bag.version + 1 }

/-- Remove the entries among the first ones whose items satisfy a predicate, from the last on. -/
def removeManyFrom (priority : Item → ℚ) (predicate : Item → ℚ → Bool) :
    ℕ → PriorityBag Item → PriorityBag Item
  | 0, bag => bag
  | i + 1, bag =>
    match bag.list[i]? with
    | none => removeManyFrom priority predicate i bag
    | some entry =>
      if predicate entry.item (priority entry.item) then
        removeManyFrom priority predicate i (dropAt priority bag i)
      else removeManyFrom priority predicate i bag

def removeMany (priority : Item → ℚ) (bag : PriorityBag Item) (predicate : Item → ℚ → Bool) :
    PriorityBag Item :=
  removeManyFrom priority predicate bag.list.length bag

def clear (bag : PriorityBag Item) : PriorityBag Item :=
  let emptied := bag.replaceAll []
  { emptied with totalPriority := 0, version := bag.version + 1 }

/-! ### Evicting -/

/-- The index of the entry that was accessed first, the earlier one of two. -/
def leastRecent : ℕ → Option (ℕ × ℚ) → List (InternalEntry Item) → Option (ℕ × ℚ)
  | _, best, [] => best
  | index, best, entry :: rest =>
    leastRecent (index + 1)
      (if best.all fun incumbent => decide (entry.lastAccessedAt < incumbent.2) then
        some (index, entry.lastAccessedAt) else best) rest

inductive EvictStrategy where
  | lru
  | lowestPriority
  | random (draw : ℚ)
  deriving DecidableEq

/-- Evict an entry. A random index out of the list fails. -/
def evict (priority : Item → ℚ) (bag : PriorityBag Item) :
    EvictStrategy → Option (PriorityBag Item)
  | .lowestPriority =>
    match bag.list.getLast? with
    | none => some bag
    | some last =>
      let dropped := dropLast priority
        { bag with totalPriority := bag.totalPriority - priority last.item }
      some { dropped with version := dropped.version + 1 }
  | .lru =>
    match leastRecent 0 none bag.list with
    | none => some bag
    | some (index, _) => some (dropAt priority bag index)
  | .random draw =>
    let index := ⌊draw * bag.list.length⌋
    if bag.list = [] then some bag
    else if 0 ≤ index ∧ index < bag.list.length then some (dropAt priority bag index.toNat)
    else none

/-! ### Decaying -/

/-- The priority of an item after it has decayed once. -/
def decayed (rate forgetRate value : ℚ) : ℚ :=
  if retain value rate < forgetRate then 0 else retain value rate

section

variable [DecidableEq Item]

/-- Let the entries of a store decay one after the other: the priorities after it, the entries that
are kept and the sum of their priorities, each as it was when the entry was kept. -/
def decayLoop (rate forgetRate : ℚ) :
    (Item → ℚ) → List (InternalEntry Item) → (Item → ℚ) × List (InternalEntry Item) × ℚ
  | priority, [] => (priority, [], 0)
  | priority, entry :: rest =>
    let left := decayed rate forgetRate (priority entry.item)
    let (last, kept, newTotal) :=
      decayLoop rate forgetRate (Function.update priority entry.item left) rest
    if 0 < left then (last, entry :: kept, left + newTotal) else (last, kept, newTotal)

/-- Let all items decay, and forget those of no priority. -/
def decay (priority : Item → ℚ) (bag : PriorityBag Item) (rate : Option ℚ) :
    (Item → ℚ) × PriorityBag Item :=
  let (last, kept, newTotal) :=
    decayLoop (rate.getD bag.decayRate) bag.forgetRate priority bag.list
  let replaced := bag.replaceAll kept
  (last, { replaced with totalPriority := newTotal, version := bag.version + 1 })

end

/-- Set the rate of decay, between zero and one. -/
def setDecayRate (bag : PriorityBag Item) (value : ℚ) : PriorityBag Item :=
  { bag with decayRate := max 0 (min 1 value) }

end PriorityBag

/-! ### Runs -/

/-- A bag and the priorities of the items there are. -/
structure BagState (Item : Type) where
  priority : Item → ℚ
  bag : PriorityBag Item

/-- What may be done to a bag. What the clock and the random source give comes with it. -/
inductive BagEvent (Item : Type) where
  | add (item : Item) (now : ℚ)
  | sample (draw now : ℚ)
  | sampleMany (draws : List (ℚ × ℚ))
  | remove (idOrItem : String ⊕ Item)
  | removeAll (ids : List String)
  | removeMany (predicate : Item → ℚ → Bool)
  | decay (rate : Option ℚ)
  | evict (strategy : PriorityBag.EvictStrategy)
  | clear
  | setDecayRate (value : ℚ)

open PriorityBag in
/-- One operation of the bag. -/
def bagStep [DecidableEq Item] (idOf : Item → String) : Machine (BagState Item) (BagEvent Item)
  | ⟨priority, bag⟩, .add item now => some ⟨priority, (add priority bag item now).2⟩
  | ⟨priority, bag⟩, .sample draw now => some ⟨priority, (sample priority bag draw now).2⟩
  | ⟨priority, bag⟩, .sampleMany draws => some ⟨priority, (sampleMany priority bag draws).2⟩
  | ⟨priority, bag⟩, .remove idOrItem =>
    some ⟨priority, (remove priority idOf bag idOrItem).2⟩
  | ⟨priority, bag⟩, .removeAll ids => some ⟨priority, removeAll priority idOf bag ids⟩
  | ⟨priority, bag⟩, .removeMany predicate => some ⟨priority, removeMany priority bag predicate⟩
  | ⟨priority, bag⟩, .decay rate =>
    let (last, left) := decay priority bag rate
    some ⟨last, left⟩
  | ⟨priority, bag⟩, .evict strategy =>
    (evict priority bag strategy).map fun left => ⟨priority, left⟩
  | ⟨priority, bag⟩, .clear => some ⟨priority, bag.clear⟩
  | ⟨priority, bag⟩, .setDecayRate value => some ⟨priority, bag.setDecayRate value⟩

end Senars.Bag
