/-
This file is the recency cache the memo is kept in. Its state is one `Map` whose
insertion order is the recency: a read that finds its key puts the entry last,
and a write past the capacity drops the first.
-/

import Senars.Library.OrderedMap

namespace Senars.Unify

open Library

/-- A cache of at most `maxSize` entries, the least recently used one first. -/
structure LruCache (Value : Type) where
  maxSize : Nat
  entries : OrderedMap String Value

namespace LruCache

variable {Value : Type}

/-- A cache holds one entry at least. -/
def new (capacity : Nat) : LruCache Value where
  maxSize := max 1 capacity
  entries := .empty

/-- Put an entry last. -/
def reinsert (entries : OrderedMap String Value) (key : String) (value : Value) :
    OrderedMap String Value := (entries.delete key).set key value

/-- Read a key, which makes it the most recent. -/
def get (cache : LruCache Value) (key : String) : Option Value × LruCache Value :=
  match cache.entries.get key with
  | none => (none, cache)
  | some value => (some value, { cache with entries := reinsert cache.entries key value })

/-- Read a key, which leaves it where it is. -/
def peek (cache : LruCache Value) (key : String) : Option Value := cache.entries.get key

/-- Drop a key. -/
def delete (cache : LruCache Value) (key : String) : LruCache Value :=
  { cache with entries := cache.entries.delete key }

/-- Drop the least recently used entry. -/
def evictVictim (entries : OrderedMap String Value) : OrderedMap String Value :=
  match entries.entries with
  | [] => entries
  | victim :: _ => entries.delete victim.1

/-- Write a key, which makes it the most recent. -/
def set (cache : LruCache Value) (key : String) (value : Value) : LruCache Value :=
  match cache.entries.get key with
  | some _ => { cache with entries := reinsert cache.entries key value }
  | none =>
    let room :=
      if cache.maxSize ≤ cache.entries.size then evictVictim cache.entries else cache.entries
    { cache with entries := room.set key value }

/-! ### What a cache holds -/

/-- The cache has this value at this key. -/
def Holds (cache : LruCache Value) (key : String) (value : Value) : Prop :=
  cache.entries.get key = some value

theorem not_holds_new (capacity : Nat) (key : String) (value : Value) :
    ¬ (new capacity : LruCache Value).Holds key value := by
  intro holds
  cases holds

theorem get_reinsert (entries : OrderedMap String Value) (key other : String) (value : Value) :
    (reinsert entries key value).get other =
      if other = key then some value else entries.get other := by
  rw [reinsert, OrderedMap.get_set, OrderedMap.get_delete]
  split <;> rfl

theorem get_fst (cache : LruCache Value) (key : String) :
    (cache.get key).1 = cache.entries.get key := by
  unfold get
  split <;> rename_i found <;> exact found.symm

variable {cache : LruCache Value} {key : String} {value : Value}

theorem holds_get {other} : (cache.get key).2.Holds other value ↔ cache.Holds other value := by
  unfold get Holds
  split
  · exact Iff.rfl
  · rename_i held found
    rw [get_reinsert]
    split
    · rename_i same
      rw [same, found]
    · exact Iff.rfl

theorem holds_evictVictim {entries} (holds : (evictVictim entries).get key = some value) :
    entries.get key = some value := by
  unfold evictVictim at holds
  split at holds
  · exact holds
  · rw [OrderedMap.get_delete] at holds
    split at holds
    · cases holds
    · exact holds

theorem holds_set {other written} (holds : (cache.set key written).Holds other value) :
    other = key ∧ value = written ∨ cache.Holds other value := by
  unfold set Holds at holds
  split at holds
  · rw [get_reinsert] at holds
    split at holds
    · exact Or.inl ⟨‹_›, (Option.some.inj holds).symm⟩
    · exact Or.inr holds
  · rw [OrderedMap.get_set] at holds
    split at holds
    · exact Or.inl ⟨‹_›, (Option.some.inj holds).symm⟩
    · split at holds
      · exact Or.inr (holds_evictVictim holds)
      · exact Or.inr holds

theorem peek_delete (cache : LruCache Value) (key other : String) :
    (cache.delete key).peek other = if other = key then none else cache.peek other :=
  OrderedMap.get_delete _ _ _

theorem peek_set_of_room (room : cache.entries.size < cache.maxSize) (key other : String)
    (value : Value) :
    (cache.set key value).peek other = if other = key then some value else cache.peek other := by
  unfold set peek
  split
  · exact get_reinsert _ _ _ _
  · dsimp only
    rw [if_neg (Nat.not_le.mpr room), OrderedMap.get_set]

theorem exists_dropped_of_set (full : cache.maxSize ≤ cache.entries.size)
    (held : 0 < cache.entries.size) (new : cache.peek key = none) (value : Value) :
    ∃ victim, (cache.peek victim).isSome ∧ (cache.set key value).peek victim = none := by
  unfold peek at new
  unfold set
  rw [new]
  rw [if_pos full]
  obtain ⟨victim, rest, entries⟩ := List.exists_cons_of_length_pos held
  have there : cache.entries.get victim.1 = some victim.2 :=
    (OrderedMap.get_eq_some_iff _ _ _).mpr (entries ▸ List.mem_cons_self)
  have other : victim.1 ≠ key := by
    rintro rfl
    rw [new] at there
    cases there
  refine ⟨victim.1, ?_, ?_⟩
  · rw [peek, there]
    rfl
  · show OrderedMap.get (OrderedMap.set (evictVictim cache.entries) key value) victim.1 = none
    rw [OrderedMap.get_set, if_neg other, evictVictim, entries]
    rw [OrderedMap.get_delete, if_pos rfl]

theorem holds_set_self (cache : LruCache Value) (key : String) (value : Value) :
    (cache.set key value).Holds key value := by
  unfold set Holds
  split
  · rw [get_reinsert, if_pos rfl]
  · rw [OrderedMap.get_set, if_pos rfl]

end LruCache

end Senars.Unify
