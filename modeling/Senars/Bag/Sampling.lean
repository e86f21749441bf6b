/-
This file compares drawing an item down the tree of a bag with scanning its entries. The
two find the same item as long as the tree is stale, which a draw mends, or each node in
use holds the sum of what it covers. Only an entry that is put at the end of a fresh tree
can bring a node into use that does not: a rebuilt tree leaves out of the nodes beyond the
entries it is built from what they cover of these.
-/

import Senars.Bag.Representation

namespace Senars.Bag

open Library PriorityBag

variable {Item : Type} {priority : Item → ℚ} {bag : PriorityBag Item}

/-- The first item in order whose priority, added to those before it and to a sum, reaches a
target. -/
def scanFrom (priority : Item → ℚ) (target : ℚ) : ℚ → List (InternalEntry Item) → Option Item
  | _, [] => none
  | sum, entry :: rest =>
    if target ≤ sum + priority entry.item then some entry.item
    else scanFrom priority target (sum + priority entry.item) rest

/-- The item a plain scan finds for a draw. -/
def scan (priority : Item → ℚ) (bag : PriorityBag Item) (draw : ℚ) : Option Item :=
  scanFrom priority (draw * (weights priority bag.list).sum) 0 bag.list

theorem scanFrom_of_reaches {target sum store idx}
    (reaches : Reaches (weights priority store) (target - sum) idx) :
    scanFrom priority target sum store = store[idx]?.map (·.item) := by
  induction store generalizing sum idx with
  | nil => exact absurd reaches.inside (Nat.not_lt_zero idx)
  | cons entry rest ih =>
    have prefix_succ : ∀ count, prefixSum (weights priority (entry :: rest)) (count + 1) =
        priority entry.item + prefixSum (weights priority rest) count := fun count => by
      rfl
    rw [scanFrom]
    split
    · next here =>
      obtain rfl : idx = 0 := by
        by_contra later
        have before := reaches.first 0 (Nat.pos_of_ne_zero later)
        rw [prefix_succ, prefixSum_zero] at before
        linarith
      rfl
    · next notHere =>
      obtain _ | further := idx
      · have reached := reaches.reaches
        rw [prefix_succ, prefixSum_zero] at reached
        exact absurd (by linarith) notHere
      · have later : Reaches (weights priority rest)
            (target - (sum + priority entry.item)) further := by
          refine ⟨?_, ?_, fun earlier before => ?_⟩
          · have inside := reaches.inside
            rw [weights, List.length_map, List.length_cons] at inside
            rw [weights, List.length_map]
            omega
          · have reached := reaches.reaches
            rw [prefix_succ] at reached
            linarith
          · have less := reaches.first (earlier + 1) (by omega)
            rw [prefix_succ] at less
            linarith
        exact ih later

/-! ### Faithful trees -/

/-- The tree is stale, or each node below a bound holds the sum of the priorities it covers or
covers no priority at all. -/
def RightBelow (priority : Item → ℚ) (bag : PriorityBag Item) (bound : ℕ) : Prop :=
  bag.treeStale = true ∨ ∀ i, 0 < i → i < bound →
    node bag.tree i = covered (weights priority bag.list) i ∨
      covered (weights priority bag.list) i = 0

/-- A bag that can be drawn from: the tree has a place for each entry it may hold, and the nodes in
use are right. -/
structure Drawable (priority : Item → ℚ) (bag : PriorityBag Item) : Prop where
  represents : Represents priority bag
  nonnegative : ∀ weight ∈ weights priority bag.list, 0 ≤ weight
  size : bag.tree.length = bag.capacity + 1
  right : RightBelow priority bag bag.list.length

theorem sum_le_of_covered_eq_zero {values : List ℚ} (sorted : values.Pairwise (· ≥ ·))
    (nonnegative : ∀ value ∈ values, 0 ≤ value) {i} (positive : 0 < i)
    (inside : i < values.length) (nothing : covered values i = 0) :
    values.sum ≤ prefixSum values (i - lowBit i) := by
  have low := lowBit_pos positive
  have start : i - lowBit i < values.length := by omega
  have first : values[i - lowBit i] ≤ 0 := by
    have grows := prefixSum_mono nonnegative (by omega : i - lowBit i + 1 ≤ i)
    rw [prefixSum_succ, List.getD_eq_getElem _ _ start] at grows
    rw [covered] at nothing
    linarith
  have later : ∀ value ∈ values.drop (i - lowBit i), value ≤ 0 := by
    intro value member
    obtain ⟨further, isInside, rfl⟩ := List.mem_drop_iff_getElem.mp member
    rcases Nat.eq_zero_or_pos further with rfl | after
    · exact first
    · exact (List.pairwise_iff_getElem.mp sorted _ _ start (by omega) (by omega)).trans first
  have rest : (values.drop (i - lowBit i)).sum ≤ 0 :=
    (List.sum_le_card_nsmul _ _ later).trans (by rw [smul_zero])
  have parts := List.sum_take_add_sum_drop values (i - lowBit i)
  rw [prefixSum]
  linarith

/-! ### Nodes that stay right -/

theorem rightBelow_syncTree {bound} (fits : bag.list.length < bag.tree.length)
    (right : RightBelow priority bag bound) (within : bound ≤ bag.list.length + 1) :
    RightBelow priority (syncTree priority bag) bound := by
  refine .inr fun i positive below => ?_
  have length : (weights priority bag.list).length = bag.list.length := List.length_map _
  unfold syncTree
  split
  · exact .inl (node_rebuild (by omega) positive (by omega))
  · next fresh => exact right.resolve_left fresh i positive below

theorem rightBelow_dropLast {last} (fits : bag.list.length < bag.tree.length)
    (right : RightBelow priority bag bag.list.length) (ends : bag.list.getLast? = some last) :
    RightBelow priority (dropLast priority bag) bag.list.length := by
  obtain ⟨before, shape⟩ := List.getLast?_eq_some_iff.mp ends
  have shorter : bag.list.dropLast = before := by rw [shape, List.dropLast_concat]
  have length : bag.list.length = before.length + 1 := by rw [shape, List.length_append]; rfl
  have popped : RightBelow priority { bag with list := before } (before.length + 1) := by
    refine right.imp_right fun each i positive below => ?_
    have same : covered (weights priority bag.list) i = covered (weights priority before) i := by
      rw [shape, weights, List.map_append]
      refine covered_append _ ?_
      rw [List.length_map]
      omega
    rw [← same]
    exact each i positive (by omega)
  have fitsBefore : before.length < bag.tree.length := by omega
  have synced : RightBelow priority (syncTree priority { bag with list := before })
      (before.length + 1) := rightBelow_syncTree fitsBefore popped le_rfl
  have fresh : (syncTree priority { bag with list := before }).treeStale = false := by
    unfold syncTree
    split
    · rfl
    · next notStale => exact Bool.eq_false_iff.mpr notStale
  have nodes := synced.resolve_left (by rw [fresh]; exact Bool.false_ne_true)
  refine .inr fun i positive below => ?_
  rw [dropLast_list, shorter]
  rw [syncTree_list] at nodes
  have unchanged : node (dropLast priority bag).tree i =
      node (syncTree priority { bag with list := before }).tree i := by
    unfold dropLast
    simp only [ends, shorter, syncTree_list]
    exact node_addAt _ (by omega)
  rw [unchanged]
  exact nodes i positive (by omega)

theorem rightBelow_admitItem {item} (now : ℚ)
    (right : insertIndex priority bag.list (priority item) = bag.list.length →
      RightBelow priority bag (bag.list.length + 1)) :
    RightBelow priority (admitItem priority bag item now) (bag.list.length + 1) := by
  by_cases appends : bag.treeStale = false ∧
      insertIndex priority bag.list (priority item) = bag.list.length
  · obtain ⟨fresh, last⟩ := appends
    have each := (right last).resolve_left (by rw [fresh]; exact Bool.false_ne_true)
    have admitted : admitItem priority bag item now =
        { bag with
          list := bag.list ++ [⟨item, now⟩]
          tree := addAt bag.tree bag.list.length (priority item)
          totalPriority := bag.totalPriority + priority item
          version := bag.version + 1 } := by
      simp [admitItem, insertEntry, last, fresh]
    rw [admitted]
    refine .inr fun i positive below => ?_
    have same : covered (weights priority (bag.list ++ [⟨item, now⟩])) i =
        covered (weights priority bag.list) i := by
      rw [weights, List.map_append]
      refine covered_append _ ?_
      rw [List.length_map]
      omega
    rw [same, node_addAt _ (by omega)]
    exact each i positive below
  · refine .inl ?_
    unfold admitItem insertEntry
    simp only
    rw [if_neg]
    rw [Bool.and_eq_true, Bool.not_eq_true', decide_eq_true_iff]
    rintro ⟨fresh, last⟩
    refine appends ⟨fresh, ?_⟩
    rw [List.length_append, List.length_cons, List.length_take, List.length_drop] at last
    omega

namespace Drawable

theorem faithful_syncTree (drawable : Drawable priority bag) (i : ℕ) (positive : 0 < i)
    (inside : i < (weights priority bag.list).length) :
    Faithful (weights priority bag.list) (syncTree priority bag).tree i := by
  have length : (weights priority bag.list).length = bag.list.length := List.length_map _
  rw [length] at inside
  have fits := drawable.represents.fits
  have size := drawable.size
  unfold syncTree
  split
  · exact .inl (node_rebuild (by omega) positive (by omega))
  · next fresh =>
    refine (drawable.right.resolve_left fresh i positive inside).imp_right fun nothing => ?_
    exact sum_le_of_covered_eq_zero drawable.represents.sorted drawable.nonnegative positive
      (by omega) nothing

theorem sample_eq_scan (drawable : Drawable priority bag) {draw} (least : 0 ≤ draw)
    (below : draw < 1) (now : ℚ) : (sample priority bag draw now).1 = scan priority bag draw := by
  have total := drawable.represents.total
  rcases drawable.represents.sample_cases draw now with
    ⟨empty, same⟩ | ⟨some, none, same⟩ | ⟨positive, drawn⟩
  · rw [same, scan, empty]
    rfl
  · have zero : (weights priority bag.list).sum = 0 := by
      refine le_antisymm (total ▸ none) (List.sum_nonneg drawable.nonnegative)
    rw [same, scan, zero]
    obtain ⟨entry, rest, shape⟩ := List.exists_cons_of_ne_nil some
    have worth := drawable.nonnegative (priority entry.item) (by
      rw [shape]
      exact List.mem_cons_self)
    rw [shape, scanFrom, if_pos (by linarith)]
    rfl
  · have length : (weights priority bag.list).length = bag.list.length := List.length_map _
    have found := findByPrefixSum_reaches drawable.nonnegative
      (mul_nonneg least positive.le)
      (by rw [← total]; exact mul_lt_of_lt_one_left positive below)
      drawable.faithful_syncTree
    have inside := found.inside
    rw [length] at found inside
    rw [drawn, scan, ← total, scanFrom_of_reaches (by rwa [sub_zero])]
    simp only [pickWeighted, syncTree_list, syncTree_totalPriority, if_pos inside]

/-! ### What keeps a bag drawable -/

theorem of_sublist {other} (drawable : Drawable priority bag)
    (represents : Represents priority other) (part : other.list.Sublist bag.list)
    (size : other.tree.length = other.capacity + 1) (stale : other.treeStale = true) :
    Drawable priority other :=
  ⟨represents, fun weight member => drawable.nonnegative weight ((part.map _).subset member), size,
    .inl stale⟩

theorem fits (drawable : Drawable priority bag) : bag.list.length < bag.tree.length := by
  have fits := drawable.represents.fits
  rw [drawable.size]
  omega

theorem length_syncTree (fits : bag.list.length < bag.tree.length) :
    (syncTree priority bag).tree.length = bag.tree.length := by
  unfold syncTree
  split
  · refine length_rebuild ?_
    rwa [weights, List.length_map]
  · rfl

theorem length_dropLast (fits : bag.list.length < bag.tree.length) :
    (dropLast priority bag).tree.length = bag.tree.length := by
  unfold dropLast
  split
  · rfl
  · have shorter : bag.list.dropLast.length < bag.tree.length := by
      rw [List.length_dropLast]
      omega
    have synced : (syncTree priority { bag with list := bag.list.dropLast }).tree.length =
        bag.tree.length := length_syncTree shorter
    rw [length_addAt, synced]

theorem admitItem {item} (drawable : Drawable priority bag) (now : ℚ) (worth : 0 ≤ priority item)
    (room : bag.list.length < bag.capacity)
    (right : insertIndex priority bag.list (priority item) = bag.list.length →
      RightBelow priority bag (bag.list.length + 1)) :
    Drawable priority (PriorityBag.admitItem priority bag item now) := by
  have list : (PriorityBag.admitItem priority bag item now).list = _ :=
    insertEntry_list priority bag ⟨item, now⟩
  refine ⟨drawable.represents.admitItem now room, ?_, ?_, ?_⟩
  · intro weight member
    rw [list] at member
    obtain ⟨entry, isIn, rfl⟩ := List.mem_map.mp member
    rcases List.mem_append.mp isIn with first | other
    · exact drawable.nonnegative _ (List.mem_map_of_mem (List.mem_of_mem_take first))
    · rcases List.mem_cons.mp other with rfl | last
      · exact worth
      · exact drawable.nonnegative _ (List.mem_map_of_mem (List.mem_of_mem_drop last))
  · have capacity : (PriorityBag.admitItem priority bag item now).capacity = bag.capacity :=
      insertEntry_capacity priority bag ⟨item, now⟩
    rw [capacity, ← drawable.size]
    unfold PriorityBag.admitItem insertEntry
    simp only
    split
    · exact length_addAt _ _ _
    · rfl
  · have length : (PriorityBag.admitItem priority bag item now).list.length =
        bag.list.length + 1 := by
      rw [list, List.length_append, List.length_cons, ← add_assoc, ← List.length_append,
        List.take_append_drop]
    rw [length]
    exact rightBelow_admitItem now right

theorem dropLast {last} (drawable : Drawable priority bag) (ends : bag.list.getLast? = some last) :
    Drawable priority (PriorityBag.dropLast priority
        { bag with totalPriority := bag.totalPriority - priority last.item }) ∧
      RightBelow priority (PriorityBag.dropLast priority
        { bag with totalPriority := bag.totalPriority - priority last.item }) bag.list.length := by
  have right : RightBelow priority (PriorityBag.dropLast priority
      { bag with totalPriority := bag.totalPriority - priority last.item }) bag.list.length :=
    rightBelow_dropLast drawable.fits drawable.right ends
  have length : (PriorityBag.dropLast priority
      { bag with totalPriority := bag.totalPriority - priority last.item }).tree.length =
        bag.tree.length := length_dropLast drawable.fits
  refine ⟨⟨drawable.represents.dropLast ends, ?_, ?_, ?_⟩, right⟩
  · intro weight member
    rw [dropLast_list] at member
    exact drawable.nonnegative weight (((List.dropLast_sublist _).map _).subset member)
  · rw [dropLast_capacity, length]
    exact drawable.size
  · refine right.imp_right fun each i positive below => each i positive ?_
    rw [dropLast_list, List.length_dropLast] at below
    exact below.trans_le (Nat.sub_le _ _)

theorem add {item} (drawable : Drawable priority bag) (now : ℚ) (worth : 0 ≤ priority item)
    (right : bag.list.length < bag.capacity →
      insertIndex priority bag.list (priority item) = bag.list.length →
        RightBelow priority bag (bag.list.length + 1)) :
    Drawable priority (PriorityBag.add priority bag item now).2 := by
  rcases add_cases priority bag item now with
    ⟨_, same⟩ | ⟨room, admitted⟩ | ⟨last, some, full, ends, _, admitted⟩
  · rw [same]
    exact drawable
  · rw [admitted]
    exact drawable.admitItem now worth room (right room)
  · rw [admitted]
    obtain ⟨dropped, nodes⟩ := drawable.dropLast ends
    have filled := drawable.represents.fits
    have shorter : (PriorityBag.dropLast priority
        { bag with totalPriority := bag.totalPriority - priority last.item }).list.length + 1 =
          bag.list.length := by
      rw [dropLast_list, List.length_dropLast]
      show bag.list.length - 1 + 1 = bag.list.length
      omega
    refine dropped.admitItem now worth ?_ fun _ => by rwa [shorter]
    rw [dropLast_capacity]
    show _ < bag.capacity
    omega

theorem syncTree (drawable : Drawable priority bag) :
    Drawable priority (PriorityBag.syncTree priority bag) := by
  refine ⟨drawable.represents.syncTree, by rw [syncTree_list]; exact drawable.nonnegative, ?_, ?_⟩
  · rw [syncTree_capacity, length_syncTree drawable.fits]
    exact drawable.size
  · rw [syncTree_list]
    exact rightBelow_syncTree drawable.fits drawable.right (Nat.le_succ _)

theorem touch (drawable : Drawable priority bag) (index : ℕ) (now : ℚ) :
    Drawable priority (bag.touch index now) := by
  have same := Represents.weights_touch priority bag index now
  refine ⟨drawable.represents.touch index now, by rw [same]; exact drawable.nonnegative,
    drawable.size, ?_⟩
  have length : (bag.touch index now).list.length = bag.list.length := List.length_modify ..
  unfold RightBelow
  rw [same, length]
  exact drawable.right

theorem sample (drawable : Drawable priority bag) (draw now : ℚ) :
    Drawable priority (PriorityBag.sample priority bag draw now).2 := by
  rcases drawable.represents.sample_cases draw now with ⟨_, same⟩ | ⟨_, _, same⟩ | ⟨_, drawn⟩
  · rw [same]
    exact drawable
  · rw [same]
    exact drawable
  · rw [drawn]
    exact drawable.syncTree.touch _ now

theorem sampleMany (drawable : Drawable priority bag) (draws : List (ℚ × ℚ)) :
    Drawable priority (PriorityBag.sampleMany priority bag draws).2 :=
  sampleMany_keeps (fun _ draw now before => before.sample draw now) draws drawable

theorem dropAt (drawable : Drawable priority bag) (index : ℕ) :
    Drawable priority (PriorityBag.dropAt priority bag index) := by
  have represents := drawable.represents.dropAt index
  unfold PriorityBag.dropAt at represents ⊢
  cases at_index : bag.list[index]? with
  | none => exact drawable
  | some removed =>
    rw [at_index] at represents
    exact drawable.of_sublist represents (List.eraseIdx_sublist bag.list index) drawable.size rfl

theorem remove [DecidableEq Item] (drawable : Drawable priority bag) (idOf : Item → String)
    (idOrItem : String ⊕ Item) :
    Drawable priority (PriorityBag.remove priority idOf bag idOrItem).2 := by
  unfold PriorityBag.remove
  cases indexOf idOf bag idOrItem with
  | none => exact drawable
  | some idx => exact drawable.dropAt idx

theorem removeAll (drawable : Drawable priority bag) (idOf : Item → String) (ids : List String) :
    Drawable priority (PriorityBag.removeAll priority idOf bag ids) := by
  have represents := drawable.represents.removeAll idOf ids
  unfold PriorityBag.removeAll at represents ⊢
  split
  · exact drawable
  · next some =>
    rw [if_neg some] at represents
    simp only at represents ⊢
    split
    · exact drawable
    · next dropped =>
      rw [if_neg dropped] at represents
      exact drawable.of_sublist represents List.filter_sublist drawable.size rfl

theorem removeManyFrom (drawable : Drawable priority bag) (predicate : Item → ℚ → Bool)
    (count : ℕ) :
    Drawable priority (PriorityBag.removeManyFrom priority predicate count bag) :=
  removeManyFrom_keeps (fun _ index before => before.dropAt index) predicate count drawable

theorem clear (drawable : Drawable priority bag) : Drawable priority bag.clear :=
  drawable.of_sublist (Represents.clear priority bag) (List.nil_sublist _) drawable.size rfl

theorem evict (drawable : Drawable priority bag) {strategy left}
    (done : PriorityBag.evict priority bag strategy = some left) : Drawable priority left := by
  cases strategy with
  | lowestPriority =>
    unfold PriorityBag.evict at done
    cases ends : bag.list.getLast? with
    | none =>
      simp only [ends, Option.some.injEq] at done
      exact done ▸ drawable
    | some last =>
      simp only [ends, Option.some.injEq] at done
      obtain ⟨dropped, _⟩ := drawable.dropLast ends
      exact done ▸ ⟨⟨dropped.represents.sorted, dropped.represents.fits, dropped.represents.total⟩,
        dropped.nonnegative, dropped.size, dropped.right⟩
  | lru =>
    unfold PriorityBag.evict at done
    cases oldest : leastRecent 0 none bag.list with
    | none =>
      simp only [oldest, Option.some.injEq] at done
      exact done ▸ drawable
    | some found =>
      simp only [oldest, Option.some.injEq] at done
      exact done ▸ drawable.dropAt found.1
  | random draw =>
    simp only [PriorityBag.evict] at done
    split at done
    · exact Option.some.inj done ▸ drawable
    · split at done
      · exact Option.some.inj done ▸ drawable.dropAt _
      · cases done

theorem decay [DecidableEq Item] (drawable : Drawable priority bag) {rate}
    (steady : Steady (rate.getD bag.decayRate) bag.forgetRate priority bag.list) :
    Drawable (PriorityBag.decay priority bag rate).1 (PriorityBag.decay priority bag rate).2 := by
  obtain ⟨_, same, _⟩ := decay_eq steady
  refine ⟨drawable.represents.decay steady, ?_, drawable.size, .inl rfl⟩
  intro weight member
  rw [same] at member
  obtain ⟨entry, isIn, rfl⟩ := List.mem_map.mp member
  exact (mem_lasting.mp isIn).2.le

end Drawable

/-! ### Runs -/

/-- The items that are added have no negative priority. -/
def AddsNonnegative (state : BagState Item) : BagEvent Item → Prop
  | .add item _ => 0 ≤ state.priority item
  | _ => True

/-- An operation lets the bag decay only steadily, and what it adds to a bag with room at the end of
a fresh tree finds the node at the number of entries right. -/
def KeepsRight [DecidableEq Item] (state : BagState Item) : BagEvent Item → Prop
  | .add item _ =>
    state.bag.treeStale = false → state.bag.list ≠ [] →
      state.bag.list.length < state.bag.capacity →
      insertIndex state.priority state.bag.list (state.priority item) = state.bag.list.length →
      node state.bag.tree state.bag.list.length =
          covered (weights state.priority state.bag.list) state.bag.list.length ∨
        covered (weights state.priority state.bag.list) state.bag.list.length = 0
  | .decay rate =>
    Steady (rate.getD state.bag.decayRate) state.bag.forgetRate state.priority state.bag.list
  | _ => True

theorem drawable_step [DecidableEq Item] {idOf state next} {event : BagEvent Item}
    (drawable : Drawable state.priority state.bag) (worth : AddsNonnegative state event)
    (keeps : KeepsRight state event) (taken : bagStep idOf state event = some next) :
    Drawable next.priority next.bag := by
  cases event with
  | evict strategy =>
    obtain ⟨left, done, rfl⟩ := Option.map_eq_some_iff.mp taken
    exact drawable.evict done
  | add item now =>
    refine Option.some.inj taken ▸ drawable.add now worth fun room last => ?_
    by_cases fresh : state.bag.treeStale = false
    · have each := drawable.right.resolve_left (by rw [fresh]; exact Bool.false_ne_true)
      refine .inr fun i positive below => ?_
      rcases Nat.lt_succ_iff_lt_or_eq.mp below with inside | rfl
      · exact each i positive inside
      · exact keeps fresh (List.ne_nil_of_length_pos positive) room last
    · exact .inl (by rwa [Bool.not_eq_false] at fresh)
  | sample draw now => exact Option.some.inj taken ▸ drawable.sample draw now
  | sampleMany draws => exact Option.some.inj taken ▸ drawable.sampleMany draws
  | remove idOrItem => exact Option.some.inj taken ▸ drawable.remove idOf idOrItem
  | removeAll ids => exact Option.some.inj taken ▸ drawable.removeAll idOf ids
  | removeMany predicate => exact Option.some.inj taken ▸ drawable.removeManyFrom predicate _
  | decay rate => exact Option.some.inj taken ▸ drawable.decay keeps
  | clear => exact Option.some.inj taken ▸ drawable.clear
  | setDecayRate value =>
    exact Option.some.inj taken ▸ ⟨⟨drawable.represents.sorted, drawable.represents.fits,
      drawable.represents.total⟩, drawable.nonnegative, drawable.size, drawable.right⟩

theorem drawable_emptyBag (priority : Item → ℚ) (capacity : ℕ) (decayRate forgetRate : ℚ) :
    Drawable (emptyBag priority capacity decayRate forgetRate).priority
      (emptyBag priority capacity decayRate forgetRate).bag := by
  refine ⟨represents_emptyBag priority capacity decayRate forgetRate, ?_, List.length_replicate,
    .inl rfl⟩
  rintro weight ⟨⟩

/-- Whatever is done to a bag of items without negative priorities, each draw gives the item a plain
scan gives, where each operation keeps the nodes in use right. -/
theorem sample_eq_scan_of_run [DecidableEq Item] {idOf : Item → String} {capacity : ℕ}
    {decayRate forgetRate : ℚ} {events : List (BagEvent Item)} {last : BagState Item}
    (run : Run (bagStep idOf) (emptyBag priority capacity decayRate forgetRate) events last)
    (worth : Run.Meets (bagStep idOf) AddsNonnegative
      (emptyBag priority capacity decayRate forgetRate) events)
    (meets : Run.Meets (bagStep idOf) KeepsRight
      (emptyBag priority capacity decayRate forgetRate) events)
    {draw : ℚ} (least : 0 ≤ draw) (below : draw < 1) (now : ℚ) :
    (sample last.priority last.bag draw now).1 = scan last.priority last.bag draw := by
  have keeps : ∀ (state : BagState Item) (event : BagEvent Item) (next : BagState Item),
      Drawable state.priority state.bag →
      AddsNonnegative state event ∧ KeepsRight state event →
      bagStep idOf state event = some next → Drawable next.priority next.bag :=
    fun _ _ _ drawable both taken => drawable_step drawable both.1 both.2 taken
  have kept := run.keeps_of_meets keeps (worth.and meets)
    (drawable_emptyBag priority capacity decayRate forgetRate)
  exact kept.sample_eq_scan least below now

/-- The priorities a half, a third, a quarter and so on. -/
def harmonic (item : ℕ) : ℚ := 1 / (item + 2)

theorem harmonic_nonneg (item : ℕ) : 0 ≤ harmonic item := by
  unfold harmonic
  positivity

/-- An item, a draw and an item at the end of the tree that is fresh then. -/
def appendOne : List (BagEvent ℕ) := [.add 0 0, .sample 0 0, .add 1 0]

theorem sample_eq_scan_of_run_appendOne :
    ∃ last, Run (bagStep toString) (emptyBag harmonic 10 (1 / 100) (1 / 1000)) appendOne last ∧
      (sample last.priority last.bag (1 / 2) 0).1 = scan last.priority last.bag (1 / 2) := by
  have canRun : (execute (bagStep toString) (emptyBag harmonic 10 (1 / 100) (1 / 1000))
      appendOne).isSome = true := by decide +kernel
  obtain ⟨last, done⟩ := Option.isSome_iff_exists.mp canRun
  refine ⟨last, run_of_execute done, sample_eq_scan_of_run (run_of_execute done) ?_ ?_
    (by norm_num) (by norm_num) 0⟩
  · exact .cons (harmonic_nonneg 0) rfl (.cons trivial rfl
      (.cons (harmonic_nonneg 1) rfl (.nil _)))
  · refine .cons (fun _ empty => absurd rfl empty) rfl (.cons trivial rfl
      (.cons (fun _ _ _ _ => .inl ?_) rfl (.nil _)))
    decide +kernel

/-- Three items, a draw and two items at the end of the tree that is fresh then. -/
def appendTwo : List (BagEvent ℕ) :=
  [.add 0 0, .add 1 0, .add 2 0, .sample 0 0, .add 3 0, .add 4 0]

theorem sample_differs_from_scan :
    ¬ ∀ (priority : ℕ → ℚ) (capacity : ℕ) (decayRate forgetRate : ℚ)
      (events : List (BagEvent ℕ)) (last : BagState ℕ),
      Run (bagStep toString) (emptyBag priority capacity decayRate forgetRate) events last →
      Run.Meets (bagStep toString) AddsNonnegative
        (emptyBag priority capacity decayRate forgetRate) events →
      ∀ draw now, 0 ≤ draw → draw < 1 →
        (sample last.priority last.bag draw now).1 = scan last.priority last.bag draw := by
  intro always
  have canRun : (execute (bagStep toString) (emptyBag harmonic 10 (1 / 100) (1 / 1000))
      appendTwo).any (fun last => (sample last.priority last.bag (1 / 2) 0).1 ≠
        scan last.priority last.bag (1 / 2)) = true := by
    decide +kernel
  obtain ⟨last, done, differs⟩ := (Option.any_eq_true _ _).mp canRun
  have worth : Run.Meets (bagStep toString) AddsNonnegative
      (emptyBag harmonic 10 (1 / 100) (1 / 1000)) appendTwo :=
    .cons (harmonic_nonneg 0) rfl (.cons (harmonic_nonneg 1) rfl (.cons (harmonic_nonneg 2) rfl
      (.cons trivial rfl (.cons (harmonic_nonneg 3) rfl (.cons (harmonic_nonneg 4) rfl
        (.nil _))))))
  exact of_decide_eq_true differs
    (always _ _ _ _ _ _ (run_of_execute done) worth _ _ (by norm_num) (by norm_num))

end Senars.Bag
