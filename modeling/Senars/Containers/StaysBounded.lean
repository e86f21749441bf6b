/-
This file is the bound of the bounded map over whole runs of its operations. An operation that
does not put in a new key makes the map no longer; a new key at a full map keeps the bound
exactly where the eviction order has something to choose.

What is reported to `onEvict` is, in every run, what left the map other than by being deleted
or replaced, each entry once and in the order in which they left.
-/

import Senars.Containers.BoundedMap

namespace Senars.Containers

open Library

/-- The operations of a bounded map. -/
inductive BoundedMapCall (Key Value : Type) where
  | set (key : Key) (value : Value)
  | get (key : Key)
  | touch (key : Key)
  | delete (key : Key)

/-- A call, with what the clock and the source of randomness answer during it. -/
structure BoundedMapEvent (Key Value : Type) where
  call : BoundedMapCall Key Value
  now : JsNumber
  draw : JsNumber

namespace BoundedMap

variable {Key Value : Type} [DecidableEq Key]

def apply (map : BoundedMap Key Value) (event : BoundedMapEvent Key Value) :
    BoundedMap Key Value :=
  match event.call with
  | .set key value => map.set event.now event.draw key value
  | .get key => (map.get event.now key).1
  | .touch key => (map.touch event.now key).1
  | .delete key => map.delete key

/-- A bounded map as a machine. -/
def machine : Machine (BoundedMap Key Value) (BoundedMapEvent Key Value) :=
  fun map event => some (map.apply event)

@[simp] theorem options_apply (map : BoundedMap Key Value) (event : BoundedMapEvent Key Value) :
    (map.apply event).options = map.options := by
  unfold apply
  split
  · rename_i key value _
    exact map.options_makeRoom event.draw key
  · rename_i key _
    rcases map.get_cases event.now key with same | same | ⟨_, _, same⟩
    · rw [same]
    · rw [same, options_evict]
    · rw [same]
      rfl
  · rename_i key _
    rcases map.touch_cases event.now key with same | same | ⟨_, _, same⟩
    · rw [same]
    · rw [same, options_evict]
    · rw [same]
      rfl
  · rfl

/-! ### The bound -/

/-- A new key that is put into a full map finds an entry to drop. -/
def FindsVictim (map : BoundedMap Key Value) (event : BoundedMapEvent Key Value) : Prop :=
  match event.call with
  | .set key _ =>
    map.entries.get key = none → map.maxSize ≤ map.size →
      HasVictim map.options.eviction event.draw map.values
  | _ => True

variable {map : BoundedMap Key Value} {event : BoundedMapEvent Key Value}

theorem size_makeRoom_lt_iff {draw key} (bounded : map.size ≤ map.maxSize) :
    (map.makeRoom draw key).size + 1 ≤ map.maxSize ↔
      (map.entries.get key = none → map.maxSize ≤ map.size →
        HasVictim map.options.eviction draw map.values) := by
  have positive : 0 < map.maxSize := Nat.lt_of_lt_of_le Nat.one_pos (Nat.le_max_left 1 _)
  rcases map.makeRoom_cases draw key with
    ⟨entry, found, same⟩ | ⟨victim, entry, absent, full, chosen, found, same⟩ |
      ⟨absent, same, noVictim⟩
  · have shorter : (map.makeRoom draw key).size + 1 = map.size := by
      rw [same]
      exact OrderedMap.size_delete found
    refine iff_of_true (shorter.trans_le bounded) fun absent => ?_
    exact absurd (absent.symm.trans found) (by simp)
  · have shorter : (map.makeRoom draw key).size + 1 = map.size := by
      rw [same]
      exact size_evict found
    refine iff_of_true (shorter.trans_le bounded) fun _ _ => ?_
    exact (isSome_selectVictim (positive.trans_le full)).mp (by rw [chosen]; rfl)
  · rw [same]
    constructor
    · intro fits _ full
      omega
    · intro finds
      by_contra tooLong
      have full : map.maxSize ≤ map.size := by omega
      have some := (isSome_selectVictim (positive.trans_le full)).mpr (finds absent full)
      rw [noVictim full] at some
      cases some

theorem size_apply_le_iff (bounded : map.size ≤ map.maxSize) :
    map.FindsVictim event ↔ (map.apply event).size ≤ (map.apply event).maxSize := by
  have sameBound : (map.apply event).maxSize = map.maxSize := by
    unfold maxSize
    rw [options_apply]
  rw [sameBound]
  obtain ⟨call, now, draw⟩ := event
  cases call with
  | set key value =>
    show _ ↔ (map.set now draw key value).size ≤ map.maxSize
    rw [size_set, size_makeRoom_lt_iff bounded]
    exact Iff.rfl
  | get key =>
    refine iff_of_true trivial ?_
    show (map.get now key).1.size ≤ map.maxSize
    rcases map.get_cases now key with same | same | ⟨_, found, same⟩
    · rwa [same]
    · rw [same]
      exact (map.size_evict_le key).trans bounded
    · rwa [same, size_reinsert found]
  | touch key =>
    refine iff_of_true trivial ?_
    show (map.touch now key).1.size ≤ map.maxSize
    rcases map.touch_cases now key with same | same | ⟨_, found, same⟩
    · rwa [same]
    · rw [same]
      exact (map.size_evict_le key).trans bounded
    · rwa [same, size_reinsert found]
  | delete key =>
    exact iff_of_true trivial ((OrderedMap.size_delete_le map.entries key).trans bounded)

/-! ### The reports -/

/-- The call deletes a key. -/
def deletes (call : BoundedMapCall Key Value) (key : Key) : Bool :=
  match call with
  | .delete deleted => decide (deleted = key)
  | _ => false

/-- The entries that leave a map during a call and that the call does not delete. -/
def evictedBy (map : BoundedMap Key Value) (event : BoundedMapEvent Key Value) :
    List (Value × Key) :=
  (map.entries.entries.filter fun entry =>
    ((map.apply event).entries.get entry.1).isNone && !deletes event.call entry.1).map
      fun entry => (entry.2.value, entry.1)

/-- The entries that leave a map during the calls of a run and that no call deletes. -/
def evictions : BoundedMap Key Value → List (BoundedMapEvent Key Value) → List (Value × Key)
  | _, [] => []
  | map, event :: events => map.evictedBy event ++ evictions (map.apply event) events

theorem evictedBy_eq_nil
    (kept : ∀ key, (map.entries.get key).isSome = true → deletes event.call key = false →
      ((map.apply event).entries.get key).isSome = true) : map.evictedBy event = [] := by
  refine List.map_eq_nil_iff.mpr (List.filter_eq_nil_iff.mpr fun entry inside gone => ?_)
  have found := (map.entries.get_eq_some_iff entry.1 entry.2).mpr inside
  obtain ⟨absent, stays⟩ := Bool.and_eq_true_iff.mp gone
  have there := kept entry.1 (by rw [found]; rfl) (by simpa using stays)
  exact absurd there (by rw [Option.isNone_iff_eq_none.mp absent]; simp)

theorem evictedBy_eq_of_evict (gone : Key)
    (evicted : ∀ key entry, map.entries.get key = some entry →
      (((map.apply event).entries.get key).isNone && !deletes event.call key) =
        decide (key = gone)) :
    map.evictedBy event =
      (map.entries.get gone).toList.map fun entry => (entry.value, gone) := by
  have same := List.filter_congr fun (entry : Key × Entry Value) inside =>
    evicted entry.1 entry.2 ((map.entries.get_eq_some_iff entry.1 entry.2).mpr inside)
  unfold evictedBy
  rw [same, OrderedMap.filter_entries, List.map_map]
  rfl

theorem reported_of_read {key} (deletesNone : ∀ other, deletes event.call other = false)
    (read : map.apply event = map ∨ map.apply event = map.evict key ∨
      ∃ entry, map.entries.get key = some entry ∧ map.apply event = map.reinsert key entry) :
    (map.apply event).reported = map.reported ++ map.evictedBy event := by
  rcases read with same | same | ⟨entry, found, same⟩
  · rw [evictedBy_eq_nil, List.append_nil, same]
    intro other there _
    rwa [same]
  · rw [evictedBy_eq_of_evict key, same, reported_evict]
    intro other entry found
    rw [deletesNone, same, get_evict]
    by_cases isKey : other = key
    · simp [isKey]
    · simp [isKey, found]
  · rw [evictedBy_eq_nil, List.append_nil, same]
    · rfl
    · intro other there _
      rwa [same, get_reinsert found]

theorem reported_apply (map : BoundedMap Key Value) (event : BoundedMapEvent Key Value) :
    (map.apply event).reported = map.reported ++ map.evictedBy event := by
  obtain ⟨call, now, draw⟩ := event
  cases call with
  | get key => exact reported_of_read (fun _ => rfl) (map.get_cases now key)
  | touch key => exact reported_of_read (fun _ => rfl) (map.touch_cases now key)
  | delete key =>
    rw [evictedBy_eq_nil, List.append_nil]
    · rfl
    · intro other there stays
      show ((map.entries.delete key).get other).isSome = true
      rw [OrderedMap.get_delete, if_neg fun same => of_decide_eq_false stays same.symm]
      exact there
  | set key value =>
    have after : ∀ other, ((map.set now draw key value).entries.get other).isSome =
        (decide (other = key) || ((map.makeRoom draw key).entries.get other).isSome) := by
      intro other
      rw [← Option.isSome_map, get_set]
      by_cases isKey : other = key
      · simp [isKey]
      · simp [isKey]
    show (map.makeRoom draw key).reported = _
    rcases map.makeRoom_cases draw key with
      ⟨_, _, same⟩ | ⟨victim, _, absent, _, _, _, same⟩ | ⟨_, same, _⟩
    · rw [evictedBy_eq_nil, List.append_nil, same]
      intro other there _
      show ((map.set now draw key value).entries.get other).isSome = true
      rw [after, same, OrderedMap.get_delete]
      by_cases isKey : other = key
      · simp [isKey]
      · simpa [isKey] using there
    · rw [evictedBy_eq_of_evict victim, same, reported_evict]
      intro other entry found
      have notKey : other ≠ key := by
        rintro rfl
        cases absent.symm.trans found
      show (((map.set now draw key value).entries.get other).isNone && !false) = _
      rw [← Option.not_isSome, after, same, get_evict]
      by_cases isVictim : other = victim
      · simp [isVictim, isVictim ▸ notKey]
      · simp [isVictim, found]
    · rw [evictedBy_eq_nil, List.append_nil, same]
      intro other there _
      show ((map.set now draw key value).entries.get other).isSome = true
      rw [after, same, there, Bool.or_true]

theorem reported_of_run {first last : BoundedMap Key Value} {events}
    (run : Run machine first events last) :
    last.reported = first.reported ++ evictions first events := by
  induction run with
  | nil => exact (List.append_nil _).symm
  | cons taken _ ih =>
    cases taken
    rw [ih, reported_apply, List.append_assoc]
    rfl

/-- In every run of a new map, its size is never above its bound exactly where each new key that is
put into the full map finds an entry to drop, and what is reported is what was evicted. -/
theorem bounded_iff_findsVictims {options : BoundedMapOptions Value} {last : BoundedMap Key Value}
    {events : List (BoundedMapEvent Key Value)} (run : Run machine (new options) events last) :
    ((∀ reached, Run.Passes machine (new options) events reached →
        reached.size ≤ max 1 options.maxSize) ↔
      Run.Meets machine FindsVictim (new options) events) ∧
      last.reported = evictions (new options) events := by
  have keepsOptions : ∀ (map : BoundedMap Key Value) event next, map.options = options →
      machine map event = some next → next.options = options := by
    intro map event next same taken
    cases Option.some.inj taken
    exact (options_apply map event).trans same
  have agree : ∀ (map : BoundedMap Key Value) event next, map.size ≤ map.maxSize →
      machine map event = some next → (map.FindsVictim event ↔ next.size ≤ next.maxSize) := by
    intro map event next bounded taken
    cases Option.some.inj taken
    exact size_apply_le_iff bounded
  refine ⟨?_, reported_of_run run⟩
  rw [Run.meets_iff_passes agree run (Nat.zero_le _)]
  refine forall_congr' fun reached => forall_congr' fun passed => ?_
  obtain ⟨_, _, _, toReached⟩ := passed
  unfold maxSize
  rw [toReached.keeps keepsOptions rfl]

/-- Two entries whose scores are not numbers, in a map for one. -/
theorem grows_of_nan_scores :
    ∃ last, Run machine (new { maxSize := 1, eviction := .byScore fun _ => .nan })
      [⟨.set "first" 1, 0, 0⟩, ⟨.set "second" 2, 0, 0⟩] last ∧ 1 < last.size := by
  refine ⟨_, run_of_execute rfl, ?_⟩
  decide

theorem bounded_iff_findsVictims_three :
    (∃ last, Run machine (new { maxSize := 2 })
      [⟨.set "first" 1, 0, 0⟩, ⟨.set "second" 2, 0, 0⟩, ⟨.set "third" 3, 0, 0⟩] last) ∧
      ∀ reached, Run.Passes machine (new { maxSize := 2 })
        [⟨.set "first" 1, 0, 0⟩, ⟨.set "second" 2, 0, 0⟩, ⟨.set "third" 3, 0, 0⟩] reached →
        reached.size ≤ max 1 2 :=
  ⟨⟨_, run_of_execute rfl⟩, (bounded_iff_findsVictims (run_of_execute rfl)).1.mpr <|
    .cons (fun _ _ => trivial) rfl <| .cons (fun _ _ => trivial) rfl <|
      .cons (fun _ _ => trivial) rfl <| .nil _⟩

end BoundedMap

end Senars.Containers
