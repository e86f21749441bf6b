/-
This file is the bounded map that the bounded containers are made of. The entries are in one
map whose order is their recency; a new key at a full map first drops the entry that the
eviction order chooses, and an entry past its lifetime goes when it is looked at. Whatever the
map drops by itself it reports, and the model keeps the reports in a list. A key is never the
undefined value, which is how the choice says that it found nothing.

The choice by score takes the lowest score below infinity. So a map whose scores are all
infinite or not numbers drops nothing and grows past its bound, and it stays within the bound
exactly where each full map that is given a new key has an entry to drop.
-/

import Mathlib.Data.Rat.Floor
import Senars.Library.JsNumber
import Senars.Library.OrderedMap
import Senars.Library.Runs

namespace Senars.Containers

open Library

/-! ### The extremum of a list -/

section

variable {Item : Type} {score : Item → JsNumber} {better : JsNumber → JsNumber → Bool}

/-- The one scan for an extremum, which ends with the winner and its score. -/
def extremumBy (score : Item → JsNumber) (better : JsNumber → JsNumber → Bool) :
    List Item → Option Item → JsNumber → Option Item × JsNumber
  | [], item, best => (item, best)
  | candidate :: rest, item, best =>
    if better (score candidate) best then
      extremumBy score better rest (some candidate) (score candidate)
    else extremumBy score better rest item best

def minBy (items : List Item) (score : Item → JsNumber) : Option Item :=
  (extremumBy score JsNumber.less items none (.infinite false)).1

variable {items : List Item}

theorem isSome_extremumBy {item best} :
    (extremumBy score better items item best).1.isSome = true ↔
      item.isSome = true ∨ ∃ candidate ∈ items, better (score candidate) best = true := by
  induction items generalizing item best with
  | nil => simp [extremumBy]
  | cons candidate rest ih =>
    rw [extremumBy]
    split
    · rename_i wins
      rw [ih]
      simp [wins]
    · rename_i loses
      rw [ih]
      simp [loses]

theorem mem_of_extremumBy {item best winner}
    (wins : (extremumBy score better items item best).1 = some winner) :
    item = some winner ∨ winner ∈ items := by
  induction items generalizing item best with
  | nil => exact .inl wins
  | cons candidate rest ih =>
    rw [extremumBy] at wins
    split at wins
    · rcases ih wins with same | later
      · exact .inr (Option.some.inj same ▸ List.mem_cons_self)
      · exact .inr (List.mem_cons_of_mem _ later)
    · exact (ih wins).imp_right (List.mem_cons_of_mem _)

theorem isSome_minBy :
    (minBy items score).isSome = true ↔
      ∃ item ∈ items, JsNumber.less (score item) (.infinite false) = true := by
  unfold minBy
  rw [isSome_extremumBy]
  simp

theorem mem_of_minBy {lowest} (found : minBy items score = some lowest) : lowest ∈ items :=
  (mem_of_extremumBy found).resolve_left (by simp)

end

/-! ### The map -/

/-- The order in which entries are evicted. -/
inductive EvictionOrder (Value : Type) where
  | lru
  | fifo
  | random
  | byScore (score : Value → JsNumber)

structure BoundedMapOptions (Value : Type) where
  maxSize : ℕ := 1000
  ttlMs : JsNumber := .infinite false
  eviction : EvictionOrder Value := .lru
  touchOnRead : Option Bool := none

structure Entry (Value : Type) where
  value : Value
  expiresAt : JsNumber

/-- The entries in their order, and what was reported to `onEvict` so far. -/
structure BoundedMap (Key Value : Type) where
  options : BoundedMapOptions Value
  entries : OrderedMap Key (Entry Value) := .empty
  reported : List (Value × Key) := []

/-- `Math.floor(rng() * max)` at what the source draws. -/
def nextInt (draw : JsNumber) (max : ℕ) : JsNumber := (draw * .finite max).floor

/-- The key that is counted when the count is the target. -/
def keyAt {Key : Type} (target : JsNumber) : ℕ → List Key → Option Key
  | _, [] => none
  | seen, key :: rest =>
    if .finite seen = target then some key else keyAt target (seen + 1) rest

namespace BoundedMap

variable {Key Value : Type}

/-- A new map. -/
def new (options : BoundedMapOptions Value) : BoundedMap Key Value := { options }

def maxSize (map : BoundedMap Key Value) : ℕ := max 1 map.options.maxSize

def neverExpires (map : BoundedMap Key Value) : Bool :=
  decide (map.options.ttlMs = .infinite false)

def touchOnRead (map : BoundedMap Key Value) : Bool :=
  map.options.touchOnRead.getD <|
    match map.options.eviction with
    | .lru => true
    | _ => false

def size (map : BoundedMap Key Value) : ℕ := map.entries.size

def expired (map : BoundedMap Key Value) (now : JsNumber) (entry : Entry Value) : Bool :=
  !map.neverExpires && JsNumber.lessEq entry.expiresAt now

/-- A uniform pick over the keys. -/
def randomKey (map : BoundedMap Key Value) (draw : JsNumber) : Option Key :=
  keyAt (nextInt draw map.size) 0 (map.entries.entries.map Prod.fst)

def selectVictim (map : BoundedMap Key Value) (draw : JsNumber) : Option Key :=
  match map.options.eviction with
  | .lru | .fifo => (map.entries.entries.map Prod.fst).head?
  | .random => map.randomKey draw
  | .byScore score => (minBy map.entries.entries fun entry => score entry.2.value).map Prod.fst

/-! ### The victim -/

/-- An eviction order has something to choose among some values. -/
def HasVictim (order : EvictionOrder Value) (draw : JsNumber) (values : List Value) : Prop :=
  match order with
  | .lru | .fifo => True
  | .random => JsNumber.lessEq 0 draw = true ∧ JsNumber.less draw 1 = true
  | .byScore score => ∃ value ∈ values, JsNumber.less (score value) (.infinite false) = true

def values (map : BoundedMap Key Value) : List Value := map.entries.entries.map (·.2.value)

variable {map : BoundedMap Key Value} {key : Key} {keys : List Key} {draw : JsNumber}
  {entry : Entry Value}

theorem isSome_keyAt {target seen} :
    (keyAt target seen keys).isSome = true ↔
      ∃ place < keys.length, target = .finite (seen + place : ℕ) := by
  induction keys generalizing seen with
  | nil => simp [keyAt]
  | cons key rest ih =>
    rw [keyAt]
    split
    · rename_i here
      exact iff_of_true rfl ⟨0, Nat.zero_lt_succ _, here.symm⟩
    · rename_i elsewhere
      rw [ih]
      constructor
      · rintro ⟨place, within, same⟩
        exact ⟨place + 1, Nat.succ_lt_succ within, by rw [same, Nat.add_right_comm, Nat.add_assoc]⟩
      · rintro ⟨place, within, same⟩
        cases place with
        | zero => exact absurd same.symm elsewhere
        | succ place =>
          exact ⟨place, Nat.lt_of_succ_lt_succ within, by
            rw [same, Nat.add_right_comm, Nat.add_assoc]⟩

theorem isSome_keyAt_nextInt (nonempty : 0 < keys.length) :
    (keyAt (nextInt draw keys.length) 0 keys).isSome = true ↔
      JsNumber.lessEq 0 draw = true ∧ JsNumber.less draw 1 = true := by
  have positive : (0 : ℚ) < keys.length := Nat.cast_pos.mpr nonempty
  rw [isSome_keyAt]
  cases draw with
  | nan =>
    have drawn : nextInt .nan keys.length = .nan := rfl
    simp [drawn, JsNumber.lessEq]
  | infinite negative =>
    have drawn : nextInt (.infinite negative) keys.length = .infinite negative := by
      show ((if (keys.length : ℚ) = 0 then JsNumber.nan else _) : JsNumber).floor = _
      rw [if_neg positive.ne', decide_eq_false positive.not_gt, Bool.bne_false]
      rfl
    cases negative <;> simp [drawn, JsNumber.lessEq, JsNumber.less]
  | finite draw =>
    have drawn : nextInt (.finite draw) keys.length = .finite (⌊draw * keys.length⌋ : ℤ) := rfl
    have below : JsNumber.less (.finite draw) 1 = true ↔ draw < 1 := decide_eq_true_iff
    have above : JsNumber.lessEq 0 (.finite draw) = true ↔ 0 ≤ draw := by
      simp [JsNumber.lessEq]
    rw [drawn, below, above]
    constructor
    · rintro ⟨place, within, same⟩
      have floored : ⌊draw * keys.length⌋ = (place : ℤ) := by
        have := JsNumber.finite.inj same
        rw [Nat.zero_add] at this
        exact_mod_cast this
      obtain ⟨low, high⟩ := Int.floor_eq_iff.mp floored
      have within' : ((place : ℤ) : ℚ) + 1 ≤ keys.length := by exact_mod_cast within
      constructor
      · by_contra negative
        have product := mul_neg_of_neg_of_pos (not_le.mp negative) positive
        have atLeast : (0 : ℚ) ≤ ((place : ℤ) : ℚ) := by exact_mod_cast Nat.zero_le place
        linarith
      · by_contra large
        have product := le_mul_of_one_le_left positive.le (not_lt.mp large)
        linarith
    · rintro ⟨low, high⟩
      have least : 0 ≤ ⌊draw * keys.length⌋ := Int.floor_nonneg.mpr (mul_nonneg low positive.le)
      have most : ⌊draw * keys.length⌋ < (keys.length : ℤ) := by
        rw [Int.floor_lt]
        exact_mod_cast mul_lt_of_lt_one_left positive high
      obtain ⟨place, isPlace⟩ := Int.eq_ofNat_of_zero_le least
      rw [isPlace] at most ⊢
      exact ⟨place, by exact_mod_cast most, by rw [Nat.zero_add]; rfl⟩

theorem isSome_selectVictim (nonempty : 0 < map.size) :
    (map.selectVictim draw).isSome = true ↔ HasVictim map.options.eviction draw map.values := by
  unfold selectVictim HasVictim
  have entriesNonempty : map.entries.entries ≠ [] := List.ne_nil_of_length_pos nonempty
  split
  · simpa using entriesNonempty
  · simpa using entriesNonempty
  · have same : map.size = (map.entries.entries.map Prod.fst).length := (List.length_map _).symm
    unfold randomKey
    rw [same]
    exact isSome_keyAt_nextInt (same ▸ nonempty)
  · rw [Option.isSome_map, isSome_minBy]
    simp [values]

theorem mem_of_keyAt {target seen} (found : keyAt target seen keys = some key) : key ∈ keys := by
  induction keys generalizing seen with
  | nil => cases found
  | cons first rest ih =>
    rw [keyAt] at found
    split at found
    · exact Option.some.inj found ▸ List.mem_cons_self
    · exact List.mem_cons_of_mem _ (ih found)

theorem mem_of_selectVictim {victim : Key} (found : map.selectVictim draw = some victim) :
    victim ∈ map.entries.entries.map Prod.fst := by
  unfold selectVictim at found
  split at found
  · exact List.mem_of_head? found
  · exact List.mem_of_head? found
  · exact mem_of_keyAt found
  · obtain ⟨entry, lowest, rfl⟩ := Option.map_eq_some_iff.mp found
    exact List.mem_map_of_mem (mem_of_minBy lowest)

/-! ### The operations -/

variable [DecidableEq Key]

def evict (map : BoundedMap Key Value) (key : Key) : BoundedMap Key Value :=
  match map.entries.get key with
  | none => map
  | some entry =>
    { map with
      entries := map.entries.delete key
      reported := map.reported ++ [(entry.value, key)] }

/-- The entry of a key, which is evicted instead where it is past its lifetime. -/
def live (map : BoundedMap Key Value) (now : JsNumber) (key : Key) :
    BoundedMap Key Value × Option (Entry Value) :=
  match map.entries.get key with
  | none => (map, none)
  | some entry => if map.expired now entry then (map.evict key, none) else (map, some entry)

def reinsert (map : BoundedMap Key Value) (key : Key) (entry : Entry Value) :
    BoundedMap Key Value :=
  { map with entries := (map.entries.delete key).set key entry }

def get (map : BoundedMap Key Value) (now : JsNumber) (key : Key) :
    BoundedMap Key Value × Option Value :=
  match map.live now key with
  | (next, none) => (next, none)
  | (next, some entry) =>
    (if next.touchOnRead then next.reinsert key entry else next, some entry.value)

/-- A read that leaves the recency as it is. -/
def peek (map : BoundedMap Key Value) (now : JsNumber) (key : Key) :
    BoundedMap Key Value × Option Value :=
  ((map.live now key).1, (map.live now key).2.map (·.value))

def touch (map : BoundedMap Key Value) (now : JsNumber) (key : Key) : BoundedMap Key Value × Bool :=
  match map.live now key with
  | (next, none) => (next, false)
  | (next, some entry) => (next.reinsert key entry, true)

def evictVictim (map : BoundedMap Key Value) (draw : JsNumber) : BoundedMap Key Value :=
  match map.selectVictim draw with
  | none => map
  | some victim => map.evict victim

/-- The map with a place for a key. -/
def makeRoom (map : BoundedMap Key Value) (draw : JsNumber) (key : Key) : BoundedMap Key Value :=
  if (map.entries.get key).isSome then { map with entries := map.entries.delete key }
  else if map.maxSize ≤ map.size then map.evictVictim draw
  else map

def set (map : BoundedMap Key Value) (now draw : JsNumber) (key : Key) (value : Value) :
    BoundedMap Key Value :=
  let room := map.makeRoom draw key
  { room with
    entries := room.entries.set key
      { value
        expiresAt := if map.neverExpires then .infinite false else now + map.options.ttlMs } }

/-- An entry is removed without a report. -/
def delete (map : BoundedMap Key Value) (key : Key) : BoundedMap Key Value :=
  { map with entries := map.entries.delete key }

/-- A change of the value of a key, which stays in its place and keeps its lifetime: a caller
changes the object that the map holds. -/
def mutate (map : BoundedMap Key Value) (key : Key) (change : Value → Value) :
    BoundedMap Key Value :=
  match map.entries.get key with
  | none => map
  | some entry =>
    { map with entries := map.entries.set key { entry with value := change entry.value } }

/-! ### What an operation does to the entries -/

@[simp] theorem options_evict (map : BoundedMap Key Value) (key : Key) :
    (map.evict key).options = map.options := by
  unfold evict
  split <;> rfl

theorem get_evict (map : BoundedMap Key Value) (key other : Key) :
    (map.evict key).entries.get other = if other = key then none else map.entries.get other := by
  unfold evict
  split
  · rename_i absent
    split
    · next same => exact same ▸ absent
    · rfl
  · exact map.entries.get_delete key other

theorem reported_evict (map : BoundedMap Key Value) (key : Key) :
    (map.evict key).reported =
      map.reported ++ (map.entries.get key).toList.map fun entry => (entry.value, key) := by
  unfold evict
  split
  · rename_i absent
    rw [absent]
    exact (List.append_nil _).symm
  · rename_i entry found
    rw [found]
    rfl

theorem size_evict (found : map.entries.get key = some entry) :
    (map.evict key).size + 1 = map.size := by
  unfold evict
  rw [found]
  exact OrderedMap.size_delete found

theorem size_evict_le (map : BoundedMap Key Value) (key : Key) :
    (map.evict key).size ≤ map.size := by
  unfold evict
  split
  · exact le_refl _
  · exact OrderedMap.size_delete_le map.entries key

theorem live_cases (map : BoundedMap Key Value) (now : JsNumber) (key : Key) :
    (∃ entry, map.live now key = (map, some entry) ∧ map.entries.get key = some entry) ∨
      map.live now key = (map, none) ∧ map.entries.get key = none ∨
      map.live now key = (map.evict key, none) := by
  unfold live
  split
  · rename_i absent
    exact .inr (.inl ⟨rfl, absent⟩)
  · rename_i entry found
    split
    · exact .inr (.inr rfl)
    · exact .inl ⟨entry, rfl, found⟩

theorem get_reinsert (found : map.entries.get key = some entry) (other : Key) :
    (map.reinsert key entry).entries.get other = map.entries.get other := by
  unfold reinsert
  rw [OrderedMap.get_set, OrderedMap.get_delete]
  split
  · next same => exact (same ▸ found).symm
  · rfl

theorem size_reinsert (found : map.entries.get key = some entry) :
    (map.reinsert key entry).size = map.size := by
  have gone : (map.entries.delete key).get key = none := by
    rw [OrderedMap.get_delete, if_pos rfl]
  show ((map.entries.delete key).set key entry).size = map.entries.size
  rw [OrderedMap.size_set_of_absent gone, OrderedMap.size_delete found]

theorem get_cases (map : BoundedMap Key Value) (now : JsNumber) (key : Key) :
    (map.get now key).1 = map ∨ (map.get now key).1 = map.evict key ∨
      ∃ entry, map.entries.get key = some entry ∧ (map.get now key).1 = map.reinsert key entry := by
  unfold get
  rcases map.live_cases now key with ⟨entry, same, found⟩ | ⟨same, _⟩ | same
  · rw [same]
    by_cases touches : map.touchOnRead = true
    · exact .inr (.inr ⟨entry, found, if_pos touches⟩)
    · exact .inl (if_neg touches)
  · rw [same]
    exact .inl rfl
  · rw [same]
    exact .inr (.inl rfl)

theorem touch_cases (map : BoundedMap Key Value) (now : JsNumber) (key : Key) :
    (map.touch now key).1 = map ∨ (map.touch now key).1 = map.evict key ∨
      ∃ entry, map.entries.get key = some entry ∧
        (map.touch now key).1 = map.reinsert key entry := by
  unfold touch
  rcases map.live_cases now key with ⟨entry, same, found⟩ | ⟨same, _⟩ | same
  · rw [same]
    exact .inr (.inr ⟨entry, found, rfl⟩)
  · rw [same]
    exact .inl rfl
  · rw [same]
    exact .inr (.inl rfl)

theorem live_of_neverExpires (lasting : map.neverExpires = true) (now : JsNumber) (key : Key) :
    map.live now key = (map, map.entries.get key) := by
  unfold live
  split
  · rename_i absent
    rw [absent]
  · rename_i entry found
    have lives : map.expired now entry = false := by
      unfold expired
      rw [lasting]
      rfl
    rw [if_neg (by simp [lives]), found]

theorem peek_of_neverExpires (lasting : map.neverExpires = true) (now : JsNumber) (key : Key) :
    map.peek now key = (map, (map.entries.get key).map (·.value)) := by
  unfold peek
  rw [live_of_neverExpires lasting]

theorem get_of_neverExpires (lasting : map.neverExpires = true) (now : JsNumber) (key : Key) :
    (map.get now key).2 = (map.entries.get key).map (·.value) ∧
      ((map.get now key).1 = map ∨ ∃ entry, map.entries.get key = some entry ∧
        (map.get now key).1 = map.reinsert key entry) := by
  unfold get
  rw [live_of_neverExpires lasting]
  cases found : map.entries.get key with
  | none => exact ⟨rfl, .inl rfl⟩
  | some entry =>
    refine ⟨rfl, ?_⟩
    by_cases touches : map.touchOnRead = true
    · exact .inr ⟨entry, rfl, if_pos touches⟩
    · exact .inl (if_neg touches)

@[simp] theorem options_mutate (map : BoundedMap Key Value) (key : Key) (change : Value → Value) :
    (map.mutate key change).options = map.options := by
  unfold mutate
  split <;> rfl

@[simp] theorem size_mutate (map : BoundedMap Key Value) (key : Key) (change : Value → Value) :
    (map.mutate key change).size = map.size := by
  unfold mutate
  split
  · rfl
  · rename_i entry found
    exact OrderedMap.size_set_of_present found _

theorem get_mutate (map : BoundedMap Key Value) (key other : Key) (change : Value → Value) :
    ((map.mutate key change).entries.get other).map (·.value) =
      if other = key then ((map.entries.get other).map (·.value)).map change
      else (map.entries.get other).map (·.value) := by
  unfold mutate
  split
  · rename_i absent
    split
    · next same =>
      subst same
      rw [absent]
      rfl
    · rfl
  · rename_i entry found
    rw [OrderedMap.get_set]
    split
    · next same =>
      subst same
      rw [found]
      rfl
    · rfl

theorem makeRoom_cases (map : BoundedMap Key Value) (draw : JsNumber) (key : Key) :
    (∃ entry, map.entries.get key = some entry ∧
        map.makeRoom draw key = { map with entries := map.entries.delete key }) ∨
      (∃ victim entry, map.entries.get key = none ∧ map.maxSize ≤ map.size ∧
        map.selectVictim draw = some victim ∧ map.entries.get victim = some entry ∧
        map.makeRoom draw key = map.evict victim) ∨
      map.entries.get key = none ∧ map.makeRoom draw key = map ∧
        (map.maxSize ≤ map.size → map.selectVictim draw = none) := by
  unfold makeRoom
  cases found : map.entries.get key with
  | some entry => exact .inl ⟨entry, rfl, rfl⟩
  | none =>
    right
    by_cases full : map.maxSize ≤ map.size
    · rw [if_pos full]
      unfold evictVictim
      cases chosen : map.selectVictim draw with
      | none => exact .inr ⟨rfl, rfl, fun _ => rfl⟩
      | some victim =>
        obtain ⟨⟨_, entry⟩, inside, rfl⟩ := List.mem_map.mp (mem_of_selectVictim chosen)
        exact .inl ⟨_, entry, rfl, full, rfl, (map.entries.get_eq_some_iff _ _).mpr inside, rfl⟩
    · rw [if_neg full]
      exact .inr ⟨rfl, rfl, fun isFull => absurd isFull full⟩

@[simp] theorem options_makeRoom (map : BoundedMap Key Value) (draw : JsNumber) (key : Key) :
    (map.makeRoom draw key).options = map.options := by
  rcases map.makeRoom_cases draw key with ⟨_, _, same⟩ | ⟨_, _, _, _, _, _, same⟩ | ⟨_, same, _⟩
  · rw [same]
  · rw [same, options_evict]
  · rw [same]

theorem get_makeRoom_self (map : BoundedMap Key Value) (draw : JsNumber) (key : Key) :
    (map.makeRoom draw key).entries.get key = none := by
  rcases map.makeRoom_cases draw key with
    ⟨_, _, same⟩ | ⟨_, _, absent, _, _, _, same⟩ | ⟨absent, same, _⟩
  · rw [same, OrderedMap.get_delete, if_pos rfl]
  · rw [same, get_evict, absent, ite_self]
  · rw [same, absent]

theorem get_set (map : BoundedMap Key Value) (now draw : JsNumber) (key other : Key)
    (value : Value) :
    ((map.set now draw key value).entries.get other).map (·.value) =
      if other = key then some value
      else ((map.makeRoom draw key).entries.get other).map (·.value) := by
  unfold set
  rw [OrderedMap.get_set]
  split <;> rfl

theorem size_set (map : BoundedMap Key Value) (now draw : JsNumber) (key : Key) (value : Value) :
    (map.set now draw key value).size = (map.makeRoom draw key).size + 1 :=
  OrderedMap.size_set_of_absent (map.get_makeRoom_self draw key) _

/-! ### What an eviction takes from the size it adds to the reports -/

theorem balance_evict (map : BoundedMap Key Value) (key : Key) :
    (map.evict key).size + (map.evict key).reported.length = map.size + map.reported.length := by
  cases found : map.entries.get key with
  | none =>
    have same : map.evict key = map := by
      unfold evict
      rw [found]
    rw [same]
  | some entry =>
    have shorter := size_evict found
    rw [reported_evict, found, List.length_append]
    simp only [Option.toList_some, List.map_cons, List.map_nil, List.length_singleton]
    omega

theorem balance_get (map : BoundedMap Key Value) (now : JsNumber) (key : Key) :
    (map.get now key).1.size + (map.get now key).1.reported.length =
      map.size + map.reported.length := by
  rcases map.get_cases now key with same | same | ⟨entry, found, same⟩
  · rw [same]
  · rw [same, balance_evict]
  · rw [same, size_reinsert found]
    rfl

theorem absent_of_get {now} (nothing : (map.get now key).2 = none) :
    (map.get now key).1.entries.get key = none := by
  unfold get at nothing ⊢
  rcases map.live_cases now key with ⟨entry, same, _⟩ | ⟨same, absent⟩ | same
  · rw [same] at nothing
    cases nothing
  · rw [same]
    exact absent
  · rw [same]
    exact (map.get_evict key key).trans (if_pos rfl)

theorem balance_set (absent : map.entries.get key = none) (now draw : JsNumber) (value : Value) :
    (map.set now draw key value).size + (map.set now draw key value).reported.length =
      map.size + map.reported.length + 1 := by
  have silent : (map.set now draw key value).reported = (map.makeRoom draw key).reported := rfl
  rw [size_set, silent]
  rcases map.makeRoom_cases draw key with
    ⟨_, found, _⟩ | ⟨victim, _, _, _, _, _, same⟩ | ⟨_, same, _⟩
  · cases absent.symm.trans found
  · have balance := map.balance_evict victim
    rw [same]
    omega
  · rw [same]
    omega

end BoundedMap

end Senars.Containers
