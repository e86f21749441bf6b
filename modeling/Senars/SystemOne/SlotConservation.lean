/-
This file says what becomes of pooled slots.

Every pointer of the index stands for a slot of its own that is not free and still
holds the vector its pointer was issued for, whatever happens. That is enough for
reads. That no slot is lost needs more: replacing an entry under its own key drops
it without releasing anything, so its slot is neither free nor owned and its
pointer stays in the index. As long as no entry is inserted under a key that is in
the map, that does not happen.
-/

import Senars.Library.Runs
import Senars.SystemOne.EmbeddingCache

namespace Senars.SystemOne.EmbeddingCache

open Library

variable {Component : Type}

/-! ### The invariant -/

/-- What every state keeps. While a vector is being stored its slot is `held`: not free any more
and not yet an entry's. Where the index is to be `exact`, nothing else is without a place. -/
structure Kept (exact : Prop) (held : Option (Nat × Nat)) (state : EmbeddingCache Component) :
    Prop where
  filed : ∀ key timed, state.cache.get key = some timed →
    timed.value.key = key ∧ state.pointerIndex.get timed.value.pointer = some timed.value
  issued : ∀ pointer entry, state.pointerIndex.get pointer = some entry →
    entry.pointer = pointer ∧ 0 < pointer ∧ pointer ≤ state.pointerCounter
  holds : ∀ pointer entry, state.pointerIndex.get pointer = some entry →
    entry.slot ∉ (state.pools entry.dimension).free ∧
      ∃ vector, state.bufferOf entry = some vector ∧ state.stored[pointer - 1]? = some vector
  distinct : ∀ first second entry other, state.pointerIndex.get first = some entry →
    state.pointerIndex.get second = some other → entry.dimension = other.dimension →
    entry.slot = other.slot → first = second
  free_nodup : ∀ dimension, (state.pools dimension).free.Nodup
  free_lt : ∀ dimension, ∀ slot ∈ (state.pools dimension).free,
    slot < (state.pools dimension).buffers.length
  counted : state.pointerCounter = state.stored.length
  held_apart : ∀ dimension slot, held = some (dimension, slot) →
    slot ∉ (state.pools dimension).free ∧
      ∀ pointer entry, state.pointerIndex.get pointer = some entry →
        ¬ (entry.dimension = dimension ∧ entry.slot = slot)
  held_pointer : held ≠ none → state.pointerIndex.get state.pointerCounter = none
  indexed : exact → ∀ pointer entry, state.pointerIndex.get pointer = some entry →
    ∃ timed, state.cache.get entry.key = some timed ∧ timed.value = entry
  owned : exact → ∀ dimension slot, slot < (state.pools dimension).buffers.length →
    held = some (dimension, slot) ∨ slot ∈ (state.pools dimension).free ∨
      ∃ pointer entry, state.pointerIndex.get pointer = some entry ∧
        entry.dimension = dimension ∧ entry.slot = slot

section Operations

variable {exact : Prop} {held : Option (Nat × Nat)} {state : EmbeddingCache Component}

theorem kept_new : Kept exact none (new : EmbeddingCache Component) where
  filed key timed found := absurd found (by simp [new])
  issued pointer entry found := absurd found (by simp [new])
  holds pointer entry found := absurd found (by simp [new])
  distinct first second entry other found := absurd found (by simp [new])
  free_nodup dimension := List.nodup_nil
  free_lt dimension slot member := absurd member List.not_mem_nil
  counted := rfl
  held_apart dimension slot none := absurd none (by simp)
  held_pointer some := absurd rfl some
  indexed _ pointer entry found := absurd found (by simp [new])
  owned _ dimension slot inside := absurd inside (by simp [new])

/-! ### Recency -/

theorem Kept.cache_congr (kept : Kept exact held state) {cache}
    (same : ∀ key, cache.get key = state.cache.get key) : Kept exact held { state with cache } :=
  { kept with
    filed := fun key timed found => kept.filed key timed (same key ▸ found)
    indexed := fun isExact pointer entry found => by
      obtain ⟨timed, filed, value⟩ := kept.indexed isExact pointer entry found
      exact ⟨timed, (same entry.key).trans filed, value⟩ }

theorem Kept.reinsert (kept : Kept exact held state) {key timed}
    (found : state.cache.get key = some timed) : Kept exact held (state.reinsert key timed) := by
  refine kept.cache_congr fun other => ?_
  rw [OrderedMap.get_set, OrderedMap.get_delete]
  split
  · rename_i same
    rw [same, found]
  · rfl

theorem pools_forgetEntry (entry : CacheEntry) (dimension : Nat) :
    (state.forgetEntry entry).pools dimension =
      if dimension = entry.dimension then
        { state.pools dimension with free := entry.slot :: (state.pools dimension).free }
      else state.pools dimension := by
  by_cases same : dimension = entry.dimension
  · rw [if_pos same, same]
    exact Function.update_self _ _ _
  · rw [if_neg same]
    exact Function.update_of_ne same _ _

theorem buffers_forgetEntry (entry : CacheEntry) (dimension : Nat) :
    ((state.forgetEntry entry).pools dimension).buffers = (state.pools dimension).buffers := by
  rw [pools_forgetEntry]
  split <;> rfl

variable {dimension slot : Nat} {key : String}

theorem mem_free_forgetEntry {entry} :
    slot ∈ ((state.forgetEntry entry).pools dimension).free ↔
      dimension = entry.dimension ∧ slot = entry.slot ∨ slot ∈ (state.pools dimension).free := by
  rw [pools_forgetEntry]
  split
  · rename_i same
    simp [same]
  · rename_i different
    simp [different]

theorem bufferOf_forgetEntry (entry other : CacheEntry) :
    (state.forgetEntry entry).bufferOf other = state.bufferOf other := by
  rw [bufferOf, buffers_forgetEntry, bufferOf]

theorem get_index_forgetEntry (entry : CacheEntry) (pointer : Nat) :
    (state.forgetEntry entry).pointerIndex.get pointer =
      if pointer = entry.pointer then none else state.pointerIndex.get pointer :=
  OrderedMap.get_delete _ _ _

theorem Kept.forget (kept : Kept exact held state) {timed}
    (found : state.cache.get key = some timed) :
    Kept exact held (({ state with cache := state.cache.delete key }).forgetEntry timed.value) := by
  obtain ⟨filedUnder, atPointer⟩ := kept.filed key timed found
  have remains : ∀ {pointer : Nat} {entry : CacheEntry},
      (({ state with cache := state.cache.delete key }).forgetEntry
        timed.value).pointerIndex.get pointer = some entry →
      pointer ≠ timed.value.pointer ∧ state.pointerIndex.get pointer = some entry := by
    intro pointer entry left
    rw [get_index_forgetEntry] at left
    split at left
    · exact absurd left (by simp)
    · exact ⟨‹_›, left⟩
  have apart : ∀ {pointer : Nat} {entry : CacheEntry}, pointer ≠ timed.value.pointer →
      state.pointerIndex.get pointer = some entry →
      ¬ (entry.dimension = timed.value.dimension ∧ entry.slot = timed.value.slot) :=
    fun different there same =>
      different (kept.distinct _ _ _ _ there atPointer same.1 same.2)
  have cacheAfter : ∀ other,
      (({ state with cache := state.cache.delete key }).forgetEntry timed.value).cache.get other =
        if other = key then none else state.cache.get other :=
    OrderedMap.get_delete state.cache key
  refine ⟨?_, ?_, ?_, ?_, ?_, ?_, kept.counted, ?_, ?_, ?_, ?_⟩
  · intro other later there
    rw [cacheAfter] at there
    split at there
    · exact absurd there (by simp)
    · rename_i different
      obtain ⟨under, pointed⟩ := kept.filed other later there
      refine ⟨under, ?_⟩
      rw [get_index_forgetEntry, if_neg, pointed]
      intro same
      rw [same] at pointed
      have equal := Option.some.inj (pointed.symm.trans atPointer)
      exact different (under.symm.trans ((congrArg CacheEntry.key equal).trans filedUnder))
  · intro pointer entry there
    exact kept.issued pointer entry (remains there).2
  · intro pointer entry there
    obtain ⟨different, before⟩ := remains there
    obtain ⟨notFree, content⟩ := kept.holds pointer entry before
    refine ⟨fun free => ?_, ?_⟩
    · rcases mem_free_forgetEntry.mp free with same | old
      · exact apart different before same
      · exact notFree old
    · rw [bufferOf_forgetEntry]
      exact content
  · intro first second entry other firstThere secondThere
    exact kept.distinct first second entry other (remains firstThere).2 (remains secondThere).2
  · intro dimension
    rw [pools_forgetEntry]
    split
    · rename_i same
      refine List.nodup_cons.mpr ⟨?_, kept.free_nodup dimension⟩
      rw [same]
      exact (kept.holds _ _ atPointer).1
    · exact kept.free_nodup dimension
  · intro dimension slot free
    rw [buffers_forgetEntry]
    rcases mem_free_forgetEntry.mp free with ⟨sameDimension, sameSlot⟩ | old
    · obtain ⟨vector, content, _⟩ := (kept.holds _ _ atPointer).2
      rw [sameDimension, sameSlot]
      exact (List.getElem?_eq_some_iff.mp content).1
    · exact kept.free_lt dimension slot old
  · intro dimension slot isHeld
    obtain ⟨notFree, notOwned⟩ := kept.held_apart dimension slot isHeld
    refine ⟨fun free => ?_, fun pointer entry there => notOwned pointer entry (remains there).2⟩
    rcases mem_free_forgetEntry.mp free with same | old
    · exact notOwned _ _ atPointer ⟨same.1.symm, same.2.symm⟩
    · exact notFree old
  · intro isHeld
    rw [get_index_forgetEntry]
    split
    · rfl
    · exact kept.held_pointer isHeld
  · intro isExact pointer entry there
    obtain ⟨different, before⟩ := remains there
    obtain ⟨later, filed, value⟩ := kept.indexed isExact pointer entry before
    refine ⟨later, ?_, value⟩
    rw [cacheAfter, if_neg, filed]
    intro same
    rw [same, found] at filed
    cases filed
    rw [← value] at before
    exact different ((kept.issued _ _ before).1.symm)
  · intro isExact dimension slot inside
    rw [buffers_forgetEntry] at inside
    rcases kept.owned isExact dimension slot inside with
      isHeld | free | ⟨pointer, entry, there, at'⟩
    · exact Or.inl isHeld
    · exact Or.inr (Or.inl (mem_free_forgetEntry.mpr (Or.inr free)))
    · by_cases same : pointer = timed.value.pointer
      · rw [same, atPointer] at there
        cases there
        exact Or.inr (Or.inl (mem_free_forgetEntry.mpr (Or.inl ⟨at'.1.symm, at'.2.symm⟩)))
      · refine Or.inr (Or.inr ⟨pointer, entry, ?_, at'⟩)
        rw [get_index_forgetEntry, if_neg same]
        exact there

theorem Kept.evict (kept : Kept exact held state) (key : String) :
    Kept exact held (state.evict key) := by
  unfold EmbeddingCache.evict
  split
  · exact kept
  · rename_i timed found
    exact kept.forget found

section Reading

variable (config : EmbeddingCacheConfig) (now : JsNumber)

theorem Kept.live (kept : Kept exact held state) (key : String) :
    Kept exact held (live config now state key).2 := by
  unfold EmbeddingCache.live
  split
  · exact kept
  · split
    · exact kept.evict key
    · exact kept

variable {config now}

theorem live_some {key timed next}
    (found : EmbeddingCache.live config now state key = (some timed, next)) :
    state.cache.get key = some timed ∧ next = state := by
  unfold EmbeddingCache.live at found
  split at found
  · cases found
  · split at found
    · cases found
    · cases found
      exact ⟨‹_›, rfl⟩

theorem Kept.get (kept : Kept exact held state) (key : String) :
    Kept exact held (get config now state key).2 := by
  have alive := kept.live config now key
  unfold EmbeddingCache.get
  split
  · rename_i next same
    rw [same] at alive
    exact alive
  · rename_i timed next same
    obtain ⟨found, rfl⟩ := live_some same
    exact kept.reinsert found

theorem Kept.touch (kept : Kept exact held state) (key : String) :
    Kept exact held (touch config now state key).2 := by
  have alive := kept.live config now key
  unfold EmbeddingCache.touch
  split
  · rename_i next same
    rw [same] at alive
    exact alive
  · rename_i timed next same
    obtain ⟨found, rfl⟩ := live_some same
    exact kept.reinsert found

theorem pools_touch {key next}
    (touched : EmbeddingCache.touch config now state key = (true, next)) :
    next.pools = state.pools := by
  unfold EmbeddingCache.touch at touched
  split at touched
  · cases touched
  · rename_i timed found same
    obtain ⟨_, rfl⟩ := live_some same
    cases touched
    rfl

theorem Kept.read_eq (kept : Kept exact held state) {pointer vector}
    (found : (read config now state pointer).1 = some vector) :
    0 < pointer ∧ state.stored[pointer - 1]? = some vector := by
  unfold EmbeddingCache.read at found
  split at found
  · cases found
  · rename_i entry there
    obtain ⟨_, stored, content, issued⟩ := kept.holds pointer entry there
    split at found
    · rename_i touched same
      have buffer : touched.bufferOf entry = state.bufferOf entry := by
        rw [bufferOf, pools_touch same, bufferOf]
      rw [buffer, content] at found
      rw [← Option.some.inj found]
      exact ⟨(kept.issued pointer entry there).2.1, issued⟩
    · cases found

theorem Kept.read (kept : Kept exact held state) (pointer : Nat) :
    Kept exact held (read config now state pointer).2 := by
  unfold EmbeddingCache.read
  split
  · exact kept
  · rename_i entry _
    have touched : Kept exact held (EmbeddingCache.touch config now state entry.key).2 :=
      kept.touch entry.key
    split
    · rename_i next same
      rw [same] at touched
      exact touched
    · rename_i next same
      rw [same] at touched
      exact touched

end Reading

/-! ### Clearing -/

theorem foldl_forgetEntry_cache (entries : List (String × Timed))
    (cache : OrderedMap String Timed) (state : EmbeddingCache Component) :
    entries.foldl (fun state entry => state.forgetEntry entry.2.value) { state with cache } =
      { entries.foldl (fun state entry => state.forgetEntry entry.2.value) state with cache } := by
  induction entries generalizing state with
  | nil => rfl
  | cons entry rest ih =>
    exact ih (state.forgetEntry entry.2.value)

theorem Kept.foldl_forget (entries : List (String × Timed)) (state : EmbeddingCache Component)
    (all : state.cache.entries = entries) (kept : Kept exact held state) :
    Kept exact held { entries.foldl (fun state entry => state.forgetEntry entry.2.value) state with
      cache := .empty } := by
  induction entries generalizing state with
  | nil =>
    refine kept.cache_congr fun key => ?_
    have nothing : state.cache.get key = none := by
      unfold OrderedMap.get
      rw [all]
      rfl
    rw [nothing]
    rfl
  | cons entry rest ih =>
    have nodup := all ▸ state.cache.nodup
    rw [List.map_cons, List.nodup_cons] at nodup
    have found : state.cache.get entry.1 = some entry.2 :=
      (state.cache.get_eq_some_iff entry.1 entry.2).mpr (all ▸ List.mem_cons_self)
    have others : (state.cache.delete entry.1).entries = rest := by
      change state.cache.entries.filter _ = rest
      rw [all, List.filter_cons_of_neg (by simp), List.filter_eq_self]
      intro other member
      refine decide_eq_true fun same => nodup.1 ?_
      exact same ▸ List.mem_map_of_mem member
    have later := ih _ others (kept.forget found)
    have moved : ({ state with cache := state.cache.delete entry.1 }).forgetEntry entry.2.value =
        { state.forgetEntry entry.2.value with cache := state.cache.delete entry.1 } := rfl
    rw [moved, foldl_forgetEntry_cache] at later
    exact later

theorem Kept.clear (kept : Kept exact none state) : Kept exact none state.clear := by
  have released := kept.foldl_forget state.cache.entries state rfl
  refine ⟨?_, ?_, ?_, ?_, released.free_nodup, released.free_lt, released.counted, ?_, ?_, ?_, ?_⟩
  · intro key timed found
    exact absurd found (by simp [EmbeddingCache.clear])
  · intro pointer entry found
    exact absurd found (by simp [EmbeddingCache.clear])
  · intro pointer entry found
    exact absurd found (by simp [EmbeddingCache.clear])
  · intro first second entry other found
    exact absurd found (by simp [EmbeddingCache.clear])
  · intro dimension slot none
    exact absurd none (by simp)
  · exact fun some => absurd rfl some
  · intro _ pointer entry found
    exact absurd found (by simp [EmbeddingCache.clear])
  · intro isExact dimension slot inside
    rcases released.owned isExact dimension slot inside with
      none | free | ⟨pointer, entry, there, _⟩
    · exact absurd none (by simp)
    · exact Or.inr (Or.inl free)
    · obtain ⟨timed, found, _⟩ := released.indexed isExact pointer entry there
      exact absurd found (by simp)

/-! ### Allocating -/

/-- A pool gave out a slot that was free or new, and the slot holds a vector now. -/
structure Reserves (before after : BufferPool Component) (slot : Nat)
    (vector : Vector Component) : Prop where
  filled : after.buffers[slot]? = some vector
  others : ∀ other, other ≠ slot → after.buffers[other]? = before.buffers[other]?
  free_subset : ∀ other ∈ after.free, other ∈ before.free
  free_nodup : after.free.Nodup
  slot_notMem : slot ∉ after.free
  free_left : ∀ other ∈ before.free, other = slot ∨ other ∈ after.free
  source : slot ∈ before.free ∨ slot = before.buffers.length

variable [Zero Component]

theorem reserves_allocateBuffer (dimension : Nat) (embedding : Vector Component)
    (nodup : (state.pools dimension).free.Nodup)
    (inside : ∀ slot ∈ (state.pools dimension).free,
      slot < (state.pools dimension).buffers.length) :
    Reserves (state.pools dimension)
      (((state.allocateBuffer dimension).2.setBuffer dimension (state.allocateBuffer dimension).1
        embedding).pools dimension) (state.allocateBuffer dimension).1 embedding := by
  have after : ((state.allocateBuffer dimension).2.setBuffer dimension
      (state.allocateBuffer dimension).1 embedding).pools dimension =
      { (state.allocateBuffer dimension).2.pools dimension with
        buffers := ((state.allocateBuffer dimension).2.pools dimension).buffers.set
          (state.allocateBuffer dimension).1 embedding } := Function.update_self _ _ _
  rw [after]
  cases free : (state.pools dimension).free with
  | nil =>
    have allocated : state.allocateBuffer dimension =
        ((state.pools dimension).buffers.length, { state with
          pools := Function.update state.pools dimension { state.pools dimension with
            buffers := (state.pools dimension).buffers ++ [List.replicate dimension 0] } }) := by
      simp only [EmbeddingCache.allocateBuffer, free]
    rw [allocated]
    simp only [Function.update_self, free]
    refine ⟨by simp, fun other different => ?_, by simp, List.nodup_nil, by simp, by simp [free],
      Or.inr rfl⟩
    rw [List.getElem?_set_ne different.symm, List.getElem?_append]
    split
    · rfl
    · rename_i outside
      rw [List.getElem?_eq_none (not_lt.mp outside), List.getElem?_eq_none]
      rw [List.length_singleton]
      omega
  | cons recycled rest =>
    have allocated : state.allocateBuffer dimension =
        (recycled, { state with
          pools := Function.update state.pools dimension
            { state.pools dimension with free := rest } }) := by
      simp only [EmbeddingCache.allocateBuffer, free]
    rw [free] at nodup inside
    obtain ⟨notIn, restNodup⟩ := List.nodup_cons.mp nodup
    rw [allocated]
    simp only [Function.update_self]
    refine ⟨?_, fun other different => List.getElem?_set_ne different.symm, ?_, restNodup, notIn,
      ?_, ?_⟩
    · rw [List.getElem?_set_self (inside recycled List.mem_cons_self)]
    · exact fun other member => free ▸ List.mem_cons_of_mem _ member
    · exact fun other member => List.mem_cons.mp (free ▸ member)
    · exact Or.inl (free ▸ List.mem_cons_self)

theorem pools_allocateBuffer_of_ne {other} (embedding : Vector Component)
    (different : other ≠ dimension) :
    ((state.allocateBuffer dimension).2.setBuffer dimension (state.allocateBuffer dimension).1
      embedding).pools other = state.pools other := by
  have untouched : (state.allocateBuffer dimension).2.pools other = state.pools other := by
    simp only [EmbeddingCache.allocateBuffer]
    split
    · exact Function.update_of_ne different _ _
    · exact Function.update_of_ne different _ _
  rw [← untouched]
  exact Function.update_of_ne different _ _

theorem allocateBuffer_frame (state : EmbeddingCache Component) (dimension : Nat) :
    (state.allocateBuffer dimension).2 =
      { state with pools := (state.allocateBuffer dimension).2.pools } := by
  simp only [EmbeddingCache.allocateBuffer]
  split <;> rfl

omit [Zero Component] in
theorem Kept.reserve (kept : Kept exact none state) (writes : Nat) {pools embedding}
    (reserves : Reserves (state.pools dimension) (pools dimension) slot embedding)
    (others : ∀ other, other ≠ dimension → pools other = state.pools other) :
    Kept exact (some (dimension, slot)) { state with
      pools
      writes
      pointerCounter := state.pointerCounter + 1
      stored := state.stored ++ [embedding] } := by
  have unowned : ∀ pointer entry, state.pointerIndex.get pointer = some entry →
      ¬ (entry.dimension = dimension ∧ entry.slot = slot) := by
    rintro pointer entry there ⟨rfl, rfl⟩
    obtain ⟨notFree, vector, content, _⟩ := kept.holds pointer entry there
    rcases reserves.source with free | new
    · exact notFree free
    · exact absurd (List.getElem?_eq_some_iff.mp content).1 (by omega)
  refine ⟨kept.filed, ?_, ?_, kept.distinct, ?_, ?_, ?_, ?_, ?_, kept.indexed, ?_⟩
  · intro pointer entry there
    obtain ⟨same, positive, bound⟩ := kept.issued pointer entry there
    exact ⟨same, positive, bound.trans (Nat.le_succ _)⟩
  · intro pointer entry there
    obtain ⟨notFree, vector, content, history⟩ := kept.holds pointer entry there
    have later : (state.stored ++ [embedding])[pointer - 1]? = some vector := by
      rw [List.getElem?_append_left (List.getElem?_eq_some_iff.mp history).1]
      exact history
    by_cases same : entry.dimension = dimension
    · have different : entry.slot ≠ slot := fun equal => unowned pointer entry there ⟨same, equal⟩
      refine ⟨fun free => notFree ?_, vector, ?_, later⟩
      · rw [same] at free ⊢
        exact reserves.free_subset _ free
      · rw [EmbeddingCache.bufferOf, same] at content ⊢
        exact (reserves.others _ different).trans content
    · refine ⟨?_, vector, ?_, later⟩
      · change entry.slot ∉ (pools entry.dimension).free
        rw [others _ same]
        exact notFree
      · change (pools entry.dimension).buffers[entry.slot]? = some vector
        rw [others _ same]
        exact content
  · intro other
    by_cases same : other = dimension
    · exact same ▸ reserves.free_nodup
    · change (pools other).free.Nodup
      rw [others _ same]
      exact kept.free_nodup other
  · intro other free member
    by_cases same : other = dimension
    · subst same
      have before := kept.free_lt other free (reserves.free_subset free member)
      have different : free ≠ slot := fun equal => reserves.slot_notMem (equal ▸ member)
      have there := (reserves.others free different).trans (List.getElem?_eq_getElem before)
      exact (List.getElem?_eq_some_iff.mp there).1
    · change free < (pools other).buffers.length
      change free ∈ (pools other).free at member
      rw [others _ same] at member ⊢
      exact kept.free_lt other free member
  · change state.pointerCounter + 1 = (state.stored ++ [embedding]).length
    rw [List.length_append, List.length_singleton, kept.counted]
  · intro other free isHeld
    cases isHeld
    exact ⟨reserves.slot_notMem, unowned⟩
  · intro _
    cases there : state.pointerIndex.get (state.pointerCounter + 1) with
    | none => rfl
    | some entry =>
      have bound := (kept.issued _ entry there).2.2
      omega
  · intro isExact other free inside
    by_cases same : other = dimension
    · subst same
      by_cases isSlot : free = slot
      · exact Or.inl (by rw [isSlot])
      · have there := reserves.others free isSlot
        have before : free < (state.pools other).buffers.length := by
          by_contra outside
          rw [List.getElem?_eq_none (not_lt.mp outside)] at there
          exact absurd inside (not_lt.mpr (List.getElem?_eq_none_iff.mp there))
        rcases kept.owned isExact other free before with none | wasFree | owner
        · cases none
        · exact Or.inr (Or.inl ((reserves.free_left free wasFree).resolve_left isSlot))
        · exact Or.inr (Or.inr owner)
    · change free < (pools other).buffers.length at inside
      rw [others _ same] at inside
      rcases kept.owned isExact other free inside with none | wasFree | owner
      · cases none
      · refine Or.inr (Or.inl ?_)
        change free ∈ (pools other).free
        rw [others _ same]
        exact wasFree
      · exact Or.inr (Or.inr owner)

omit [Zero Component]

/-! ### Inserting -/

theorem Kept.evictVictim (kept : Kept exact held state) : Kept exact held state.evictVictim := by
  unfold EmbeddingCache.evictVictim
  split
  · exact kept
  · exact kept.evict _

theorem get_evict_of_none {other} (absent : state.cache.get key = none) :
    (state.evict other).cache.get key = none := by
  unfold EmbeddingCache.evict
  split
  · exact absent
  · have deleted := OrderedMap.get_delete state.cache other key
    rw [absent, ite_self] at deleted
    exact deleted

theorem get_evictVictim_of_none (absent : state.cache.get key = none) :
    state.evictVictim.cache.get key = none := by
  unfold EmbeddingCache.evictVictim
  split
  · exact absent
  · exact get_evict_of_none absent

theorem evict_frame (state : EmbeddingCache Component) (key : String) :
    (∀ dimension, ((state.evict key).pools dimension).buffers =
        (state.pools dimension).buffers) ∧
      (state.evict key).pointerCounter = state.pointerCounter ∧
      (state.evict key).stored = state.stored := by
  unfold EmbeddingCache.evict
  split
  · exact ⟨fun _ => rfl, rfl, rfl⟩
  · exact ⟨fun dimension => buffers_forgetEntry _ dimension, rfl, rfl⟩

section Room

variable (config : EmbeddingCacheConfig)

theorem makeRoom_frame (state : EmbeddingCache Component) (key : String) :
    (∀ dimension, ((makeRoom config state key).pools dimension).buffers =
        (state.pools dimension).buffers) ∧
      (makeRoom config state key).pointerCounter = state.pointerCounter ∧
      (makeRoom config state key).stored = state.stored := by
  unfold makeRoom
  split
  · exact ⟨fun _ => rfl, rfl, rfl⟩
  · split
    · unfold EmbeddingCache.evictVictim
      split
      · exact ⟨fun _ => rfl, rfl, rfl⟩
      · exact evict_frame state _
    · exact ⟨fun _ => rfl, rfl, rfl⟩

theorem get_makeRoom (key : String) : (makeRoom config state key).cache.get key = none := by
  unfold makeRoom
  split
  · have deleted := OrderedMap.get_delete state.cache key key
    rw [if_pos rfl] at deleted
    exact deleted
  · rename_i absent
    split
    · exact get_evictVictim_of_none absent
    · exact absent

theorem Kept.makeRoom (kept : Kept exact held state) {key}
    (fresh : exact → state.cache.get key = none) : Kept exact held (makeRoom config state key) := by
  unfold EmbeddingCache.makeRoom
  split
  · rename_i timed found
    have inexact : ¬ exact := fun isExact => by
      rw [fresh isExact] at found
      cases found
    refine { kept with
      filed := fun other later there => ?_
      indexed := fun isExact => absurd isExact inexact }
    have deleted := OrderedMap.get_delete state.cache key other
    rw [deleted] at there
    split at there
    · cases there
    · exact kept.filed other later there
  · split
    · exact kept.evictVictim
    · exact kept

end Room

theorem Kept.file (kept : Kept exact (some (dimension, slot)) state) {entry expiresAt vector}
    (absent : state.cache.get entry.key = none) (atDimension : entry.dimension = dimension)
    (atSlot : entry.slot = slot) (pointed : entry.pointer = state.pointerCounter)
    (positive : 0 < entry.pointer) (content : state.bufferOf entry = some vector)
    (history : state.stored[entry.pointer - 1]? = some vector) :
    Kept exact none { state with
      cache := state.cache.set entry.key ⟨entry, expiresAt⟩
      pointerIndex := state.pointerIndex.set entry.pointer entry } := by
  obtain ⟨notFree, notOwned⟩ := kept.held_apart dimension slot rfl
  have unissued := kept.held_pointer (by simp)
  rw [← pointed] at unissued
  have old : ∀ {pointer : Nat} {other : CacheEntry},
      state.pointerIndex.get pointer = some other → pointer ≠ entry.pointer := by
    rintro pointer other there rfl
    rw [unissued] at there
    cases there
  have getIndex := fun pointer => OrderedMap.get_set state.pointerIndex entry.pointer pointer entry
  have getCache := fun key => OrderedMap.get_set state.cache entry.key key ⟨entry, expiresAt⟩
  refine ⟨?_, ?_, ?_, ?_, kept.free_nodup, kept.free_lt, kept.counted, ?_, ?_, ?_, ?_⟩
  · intro key timed found
    rw [getCache] at found
    split at found
    · rename_i same
      cases found
      exact ⟨same.symm, OrderedMap.get_set_self _ _ _⟩
    · obtain ⟨under, there⟩ := kept.filed key timed found
      refine ⟨under, ?_⟩
      rw [getIndex, if_neg (old there)]
      exact there
  · intro pointer other there
    rw [getIndex] at there
    split at there
    · rename_i same
      cases there
      exact ⟨same.symm, same ▸ positive, same ▸ pointed.le⟩
    · exact kept.issued pointer other there
  · intro pointer other there
    rw [getIndex] at there
    split at there
    · rename_i same
      cases there
      subst atDimension atSlot
      exact ⟨notFree, vector, content, same ▸ history⟩
    · exact kept.holds pointer other there
  · intro first second one another firstThere secondThere sameDimension sameSlot
    rw [getIndex] at firstThere secondThere
    subst atDimension atSlot
    split at firstThere
    · rename_i firstNew
      split at secondThere
      · rename_i secondNew
        exact firstNew.trans secondNew.symm
      · cases firstThere
        exact absurd ⟨sameDimension.symm, sameSlot.symm⟩ (notOwned second another secondThere)
    · split at secondThere
      · cases secondThere
        exact absurd ⟨sameDimension, sameSlot⟩ (notOwned first one firstThere)
      · exact kept.distinct first second one another firstThere secondThere sameDimension sameSlot
  · intro otherDimension otherSlot none
    cases none
  · exact fun some => absurd rfl some
  · intro isExact pointer other there
    rw [getIndex] at there
    split at there
    · cases there
      exact ⟨_, OrderedMap.get_set_self _ _ _, rfl⟩
    · obtain ⟨timed, found, value⟩ := kept.indexed isExact pointer other there
      refine ⟨timed, ?_, value⟩
      rw [getCache, if_neg]
      · exact found
      · intro same
        rw [same, absent] at found
        cases found
  · intro isExact otherDimension otherSlot inside
    rcases kept.owned isExact otherDimension otherSlot inside with
      isHeld | free | ⟨pointer, other, there, at'⟩
    · cases isHeld
      exact Or.inr (Or.inr ⟨entry.pointer, entry, OrderedMap.get_set_self _ _ _, atDimension,
        atSlot⟩)
    · exact Or.inr (Or.inl free)
    · refine Or.inr (Or.inr ⟨pointer, other, ?_, at'⟩)
      rw [getIndex, if_neg (old there)]
      exact there

theorem Kept.insert {dimension slot} (kept : Kept exact (some (dimension, slot)) state)
    (config : EmbeddingCacheConfig) (now : JsNumber) (entry : CacheEntry) {vector}
    (fresh : exact → state.cache.get entry.key = none) (atDimension : entry.dimension = dimension)
    (atSlot : entry.slot = slot) (pointed : entry.pointer = state.pointerCounter)
    (positive : 0 < entry.pointer) (content : state.bufferOf entry = some vector)
    (history : state.stored[entry.pointer - 1]? = some vector) :
    Kept exact none (insert config now state entry.key entry) := by
  obtain ⟨buffers, counter, stored⟩ := makeRoom_frame config state entry.key
  have kept' := kept.makeRoom config fresh
  have stillThere : (EmbeddingCache.makeRoom config state entry.key).bufferOf entry =
      some vector := by
    rw [EmbeddingCache.bufferOf, buffers]
    exact content
  refine kept'.file (get_makeRoom config entry.key) atDimension atSlot ?_ positive stillThere ?_
  · rw [counter, pointed]
  · rw [stored]
    exact history

section Storing

variable [Zero Component] (config : EmbeddingCacheConfig) (now : JsNumber)

theorem Kept.store (kept : Kept exact none state) (keyOf : Nat → String)
    (embedding : Vector Component)
    (fresh : exact → state.cache.get (keyOf (state.pointerCounter + 1)) = none) :
    Kept exact none (store config now state keyOf embedding).2 := by
  have reserves := reserves_allocateBuffer embedding.length embedding
    (kept.free_nodup embedding.length) (kept.free_lt embedding.length)
  have reserved := kept.reserve (state.writes + 1) reserves
    fun other different => pools_allocateBuffer_of_ne embedding different
  have frame := allocateBuffer_frame state embedding.length
  have filled : ∀ slot, (state.allocateBuffer embedding.length).2.setBuffer embedding.length slot
      embedding = { state with pools := ((state.allocateBuffer embedding.length).2.setBuffer
        embedding.length slot embedding).pools } := by
    intro slot
    rw [frame]
    rfl
  unfold EmbeddingCache.store
  simp only
  rw [filled]
  refine reserved.insert config now ⟨keyOf (state.pointerCounter + 1), state.pointerCounter + 1,
    embedding.length, (state.allocateBuffer embedding.length).1⟩ fresh rfl rfl rfl
    (Nat.succ_pos _) reserves.filled ?_
  change (state.stored ++ [embedding])[state.pointerCounter]? = some embedding
  rw [kept.counted, List.getElem?_concat_length]

end Storing

theorem Kept.waiting (kept : Kept exact held state) (waiting : List String) :
    Kept exact held { state with waiting } :=
  ⟨kept.filed, kept.issued, kept.holds, kept.distinct, kept.free_nodup, kept.free_lt, kept.counted,
    kept.held_apart, kept.held_pointer, kept.indexed, kept.owned⟩

end Operations

/-! ### Runs -/

/-- The entry an event inserts, if it inserts one, goes under a key that is not in the map. -/
def InsertsFresh (config : EmbeddingCacheConfig) (state : EmbeddingCache Component) :
    Event Component → Prop
  | .resume index embedding _ => ∀ text, state.waiting[index]? = some text →
      config.dimension.any (· ≠ embedding.length) = false → state.cache.get text = none
  | .writeRaw _ _ => state.cache.get (rawKey (state.pointerCounter + 1)) = none
  | _ => True

section Runs

variable [Zero Component] {exact : Prop} {config : EmbeddingCacheConfig}

theorem Kept.step {state next} {event : Event Component} (kept : Kept exact none state)
    (fresh : exact → InsertsFresh config state event)
    (taken : step config state event = some next) : Kept exact none next := by
  cases event with
  | write text now =>
    cases taken
    have got : Kept exact none (EmbeddingCache.get config now state text).2 := kept.get text
    unfold EmbeddingCache.write
    split
    · rename_i entry next same
      rw [same] at got
      exact got
    · rename_i next same
      rw [same] at got
      exact got.waiting _
  | resume index embedding now =>
    obtain ⟨text, at', rfl⟩ := Option.map_eq_some_iff.mp taken
    unfold EmbeddingCache.resumeWrite
    split
    · exact kept.waiting _
    · rename_i accepted
      simp only
      refine (kept.waiting _).store config now _ embedding fun isExact => ?_
      exact fresh isExact text at' (Bool.eq_false_iff.mpr accepted)
  | reject index =>
    obtain ⟨text, _, rfl⟩ := Option.map_eq_some_iff.mp taken
    exact kept.waiting _
  | writeRaw embedding now =>
    cases taken
    exact kept.store config now rawKey embedding fresh
  | read pointer now =>
    cases taken
    exact kept.read pointer
  | has text now =>
    cases taken
    exact kept.live config now text
  | clear =>
    cases taken
    exact kept.clear

end Runs

/-- The map holds an entry. -/
def Cached (state : EmbeddingCache Component) (entry : CacheEntry) : Prop :=
  ∃ key timed, state.cache.get key = some timed ∧ timed.value = entry

/-- Every slot that was ever allocated is on its free list once or owned by exactly one cached
entry, and the index holds exactly the pointers of the cached entries. -/
structure Conserved (state : EmbeddingCache Component) : Prop where
  slots : ∀ dimension slot, slot < (state.pools dimension).buffers.length →
    ((state.pools dimension).free.count slot = 1 ∧
      ¬ ∃ entry, Cached state entry ∧ entry.dimension = dimension ∧ entry.slot = slot) ∨
    (slot ∉ (state.pools dimension).free ∧
      ∃! key, ∃ timed, state.cache.get key = some timed ∧ timed.value.dimension = dimension ∧
        timed.value.slot = slot)
  index : ∀ pointer, (∃ entry, state.pointerIndex.get pointer = some entry) ↔
    ∃ entry, Cached state entry ∧ entry.pointer = pointer

theorem Kept.conserved {state : EmbeddingCache Component} (kept : Kept True none state) :
    Conserved state := by
  refine ⟨fun dimension slot inside => ?_, fun pointer => ?_⟩
  · rcases kept.owned trivial dimension slot inside with none | free | ⟨pointer, entry, there, at'⟩
    · cases none
    · refine Or.inl ⟨List.count_eq_one_of_mem (kept.free_nodup dimension) free, ?_⟩
      rintro ⟨entry, ⟨key, timed, found, rfl⟩, rfl, rfl⟩
      exact (kept.holds _ _ (kept.filed key timed found).2).1 free
    · obtain ⟨notFree, _⟩ := kept.holds pointer entry there
      rw [at'.1, at'.2] at notFree
      obtain ⟨timed, found, rfl⟩ := kept.indexed trivial pointer entry there
      refine Or.inr ⟨notFree, timed.value.key, ⟨timed, found, at'⟩, ?_⟩
      rintro key ⟨other, otherFound, sameDimension, sameSlot⟩
      obtain ⟨under, otherThere⟩ := kept.filed key other otherFound
      have same := kept.distinct _ _ _ _ otherThere there (sameDimension.trans at'.1.symm)
        (sameSlot.trans at'.2.symm)
      rw [same, there] at otherThere
      rw [← under, ← Option.some.inj otherThere]
  · constructor
    · rintro ⟨entry, there⟩
      obtain ⟨timed, found, value⟩ := kept.indexed trivial pointer entry there
      exact ⟨entry, ⟨entry.key, timed, found, value⟩, (kept.issued pointer entry there).1⟩
    · rintro ⟨entry, ⟨key, timed, found, rfl⟩, rfl⟩
      exact ⟨timed.value, (kept.filed key timed found).2⟩

section Claims

variable [Zero Component]

/-- In every state of every interleaving, reading a pointer gives nothing or the vector the
pointer was issued for. Slots and pointers are conserved in every state of an interleaving that
never inserts an entry under a key that is in the map. -/
theorem run_conserved (config : EmbeddingCacheConfig) (events : List (Event Component))
    (state : EmbeddingCache Component) (run : Run (step config) new events state) :
    (∀ pointer now vector, (read config now state pointer).1 = some vector →
      0 < pointer ∧ state.stored[pointer - 1]? = some vector) ∧
    (Run.Meets (step config) (InsertsFresh config) new events → Conserved state) := by
  constructor
  · intro pointer now vector found
    have kept : Kept False none state :=
      run.keeps (fun _ _ _ before taken => before.step (fun isExact => isExact.elim) taken) kept_new
    exact kept.read_eq found
  · intro meets
    have kept : Kept True none state :=
      run.keeps_of_meets (fun _ _ _ before fresh taken => before.step (fun _ => fresh) taken) meets
        kept_new
    exact kept.conserved

end Claims

/-! ### Two writers of one text -/

/-- A cache that never expires. -/
def lasting : EmbeddingCacheConfig := ⟨10, .infinite false, none⟩

/-- One write, from its miss to its insertion. -/
def writeOnce : List (Event Nat) := [.write "a" 0, .resume 0 [1] 0]

theorem run_conserved_writeOnce :
    ∃ state, Run (step lasting) (new : EmbeddingCache Nat) writeOnce state ∧ Conserved state := by
  obtain ⟨state, run⟩ : ∃ state, Run (step lasting) (new : EmbeddingCache Nat) writeOnce state :=
    ⟨_, .cons rfl (.cons rfl (.nil _))⟩
  refine ⟨state, run, (run_conserved lasting writeOnce state run).2
    (.cons trivial rfl (.cons ?_ rfl (.nil _)))⟩
  intro text waits _
  cases waits
  rfl

/-- Both writers miss before either inserts. -/
def writeTwice : List (Event Nat) :=
  [.write "a" 0, .write "a" 0, .resume 0 [1] 0, .resume 0 [2] 0]

/-- The second insertion drops the entry of the first without releasing its slot or its pointer. -/
theorem concurrent_writes_leak :
    ¬ ∀ (config : EmbeddingCacheConfig) (events : List (Event Nat)) (state : EmbeddingCache Nat),
      Run (step config) new events state → Conserved state := by
  intro conserved
  obtain ⟨entry, ⟨key, timed, found, value⟩, pointer⟩ :=
    ((conserved lasting writeTwice _
      (.cons rfl (.cons rfl (.cons rfl (.cons rfl (.nil _)))))).index 1).mp ⟨_, rfl⟩
  cases List.mem_singleton.mp (OrderedMap.mem_of_getEntry found)
  rw [← value] at pointer
  exact absurd pointer (by decide)

end Senars.SystemOne.EmbeddingCache
