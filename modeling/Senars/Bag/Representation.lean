/-
This file proves that a bag is what it stands for: its entries are by falling priority, no
more than its capacity, and its total is the sum of their priorities. All operations keep
this but letting the bag decay, which changes an item once for each time the bag holds it
and turns negative priorities around where the rate is above one.
-/

import Senars.Bag.Decay

namespace Senars.Bag

open Library PriorityBag

variable {Item : Type} {priority : Item → ℚ} {bag : PriorityBag Item}

/-- The entries are by falling priority and within the capacity, and the total is their sum. -/
structure Represents (priority : Item → ℚ) (bag : PriorityBag Item) : Prop where
  sorted : (weights priority bag.list).Pairwise (· ≥ ·)
  fits : bag.list.length ≤ bag.capacity
  total : bag.totalPriority = (weights priority bag.list).sum

namespace PriorityBag

/-! ### What the operations leave alone -/

@[simp] theorem syncTree_list (priority : Item → ℚ) (bag : PriorityBag Item) :
    (syncTree priority bag).list = bag.list := by
  unfold syncTree
  split <;> rfl

@[simp] theorem syncTree_totalPriority (priority : Item → ℚ) (bag : PriorityBag Item) :
    (syncTree priority bag).totalPriority = bag.totalPriority := by
  unfold syncTree
  split <;> rfl

@[simp] theorem syncTree_capacity (priority : Item → ℚ) (bag : PriorityBag Item) :
    (syncTree priority bag).capacity = bag.capacity := by
  unfold syncTree
  split <;> rfl

@[simp] theorem dropLast_list (priority : Item → ℚ) (bag : PriorityBag Item) :
    (dropLast priority bag).list = bag.list.dropLast := by
  unfold dropLast
  split
  · next empty => rw [List.getLast?_eq_none_iff.mp empty, List.dropLast_nil]
  · exact syncTree_list _ _

@[simp] theorem dropLast_totalPriority (priority : Item → ℚ) (bag : PriorityBag Item) :
    (dropLast priority bag).totalPriority = bag.totalPriority := by
  unfold dropLast
  split
  · rfl
  · exact syncTree_totalPriority _ _

@[simp] theorem dropLast_capacity (priority : Item → ℚ) (bag : PriorityBag Item) :
    (dropLast priority bag).capacity = bag.capacity := by
  unfold dropLast
  split
  · rfl
  · exact syncTree_capacity _ _

@[simp] theorem insertEntry_list (priority : Item → ℚ) (bag : PriorityBag Item)
    (entry : InternalEntry Item) :
    (insertEntry priority bag entry).list =
      bag.list.take (insertIndex priority bag.list (priority entry.item)) ++
        entry :: bag.list.drop (insertIndex priority bag.list (priority entry.item)) := by
  unfold insertEntry
  simp only
  split <;> rfl

@[simp] theorem insertEntry_totalPriority (priority : Item → ℚ) (bag : PriorityBag Item)
    (entry : InternalEntry Item) :
    (insertEntry priority bag entry).totalPriority = bag.totalPriority := by
  unfold insertEntry
  simp only
  split <;> rfl

@[simp] theorem insertEntry_capacity (priority : Item → ℚ) (bag : PriorityBag Item)
    (entry : InternalEntry Item) :
    (insertEntry priority bag entry).capacity = bag.capacity := by
  unfold insertEntry
  simp only
  split <;> rfl

theorem add_cases (priority : Item → ℚ) (bag : PriorityBag Item) (item : Item) (now : ℚ) :
    (bag.capacity = 0 ∨ bag.capacity ≤ bag.list.length ∧
        ∃ last, bag.list.getLast? = some last ∧ priority item ≤ priority last.item) ∧
      add priority bag item now = (false, bag) ∨
      bag.list.length < bag.capacity ∧
        add priority bag item now = (true, admitItem priority bag item now) ∨
      ∃ last, 0 < bag.capacity ∧ bag.capacity ≤ bag.list.length ∧
        bag.list.getLast? = some last ∧ priority last.item < priority item ∧
        add priority bag item now = (true, admitItem priority (dropLast priority
          { bag with totalPriority := bag.totalPriority - priority last.item }) item now) := by
  unfold add
  by_cases none : bag.capacity = 0
  · exact .inl ⟨.inl none, if_pos none⟩
  rw [if_neg none]
  by_cases full : bag.capacity ≤ bag.list.length
  · rw [if_pos full]
    cases ends : bag.list.getLast? with
    | none =>
      rw [List.getLast?_eq_none_iff.mp ends, List.length_nil] at full
      omega
    | some last =>
      by_cases low : priority item ≤ priority last.item
      · have refuses : shouldOverflow priority bag (priority item) = (false, bag) := by
          simp only [shouldOverflow, ends, if_pos low]
        exact .inl ⟨.inr ⟨full, last, rfl, low⟩, by rw [refuses]⟩
      · have overflows : shouldOverflow priority bag (priority item) = (true, dropLast priority
            { bag with totalPriority := bag.totalPriority - priority last.item }) := by
          simp only [shouldOverflow, ends, if_neg low]
        exact .inr (.inr ⟨last, Nat.pos_of_ne_zero none, full, rfl, not_le.mp low,
          by rw [overflows]⟩)
  · exact .inr (.inl ⟨not_le.mp full, if_neg full⟩)

theorem add_refused {item now} (refused : (add priority bag item now).1 = false) :
    (add priority bag item now).2 = bag := by
  rcases add_cases priority bag item now with
    ⟨_, same⟩ | ⟨_, admitted⟩ | ⟨_, _, _, _, _, admitted⟩
  · rw [same]
  · rw [admitted] at refused
    cases refused
  · rw [admitted] at refused
    cases refused

/-! ### The place of an entry -/

/-- The index of a priority parts a sorted store: nothing before it is below the priority, and all
from it on is. -/
def Parts (priority : Item → ℚ) (store : List (InternalEntry Item)) (least : ℚ) (idx : ℕ) :
    Prop :=
  idx ≤ store.length ∧ (∀ entry ∈ store.take idx, least ≤ priority entry.item) ∧
    ∀ entry ∈ store.drop idx, priority entry.item < least

theorem bisect_parts {store least} (sorted : (weights priority store).Pairwise (· ≥ ·))
    {steps low high} (enough : high ≤ low + steps) (order : low ≤ high)
    (inside : high ≤ store.length) (above : ∀ entry ∈ store.take low, least ≤ priority entry.item)
    (below : ∀ entry ∈ store.drop high, priority entry.item < least) :
    Parts priority store least (bisect priority store least steps low high) := by
  induction steps generalizing low high with
  | zero =>
    obtain rfl : low = high := by omega
    exact ⟨inside, above, below⟩
  | succ steps ih =>
    rw [bisect]
    split
    · next apart =>
      have within : (low + high) / 2 < store.length := by omega
      simp only [List.getElem?_eq_getElem within]
      have pairs := List.pairwise_map.mp sorted
      split
      · next notBelow =>
        refine ih (by omega) (by omega) inside ?_ below
        intro entry member
        obtain ⟨i, before, rfl⟩ := List.mem_take_iff_getElem.mp member
        rcases Nat.lt_or_ge i ((low + high) / 2) with earlier | later
        · exact notBelow.trans (List.pairwise_iff_getElem.mp pairs i _ (by omega) within earlier)
        · obtain rfl : i = (low + high) / 2 := by omega
          exact notBelow
      · next isBelow =>
        refine ih (by omega) (by omega) (by omega) above ?_
        intro entry member
        obtain ⟨i, inList, rfl⟩ := List.mem_drop_iff_getElem.mp member
        rcases Nat.eq_zero_or_pos i with rfl | later
        · exact not_le.mp isBelow
        · exact lt_of_le_of_lt
            (List.pairwise_iff_getElem.mp pairs _ _ within (by omega) (by omega))
            (not_le.mp isBelow)
    · next met =>
      obtain rfl : low = high := by omega
      exact ⟨inside, above, below⟩

theorem insertIndex_parts {store} (least : ℚ) (sorted : (weights priority store).Pairwise (· ≥ ·)) :
    Parts priority store least (insertIndex priority store least) := by
  refine bisect_parts sorted (by omega) (Nat.zero_le _) le_rfl ?_ ?_
  · rw [List.take_zero]
    rintro entry ⟨⟩
  · rw [List.drop_length]
    rintro entry ⟨⟩

/-! ### Loops -/

theorem sampleMany_keeps {holds : PriorityBag Item → Prop}
    (each : ∀ bag draw now, holds bag → holds (sample priority bag draw now).2)
    (draws : List (ℚ × ℚ)) (before : holds bag) : holds (sampleMany priority bag draws).2 := by
  induction draws generalizing bag with
  | nil => exact before
  | cons draw draws ih =>
    have next := each bag draw.1 draw.2 before
    unfold sampleMany
    cases drawn : sample priority bag draw.1 draw.2 with
    | mk item left =>
      rw [drawn] at next
      cases item with
      | none => exact next
      | some item => exact ih next

theorem removeManyFrom_keeps {holds : PriorityBag Item → Prop}
    (each : ∀ bag index, holds bag → holds (dropAt priority bag index))
    (predicate : Item → ℚ → Bool) (count : ℕ) (before : holds bag) :
    holds (removeManyFrom priority predicate count bag) := by
  induction count generalizing bag with
  | zero => exact before
  | succ count ih =>
    unfold removeManyFrom
    split
    · exact ih before
    · split
      · exact ih (each bag count before)
      · exact ih before

end PriorityBag

namespace Represents

/-! ### Sublists -/

theorem sublist {kept} (represents : Represents priority bag) (part : kept.Sublist bag.list) :
    (weights priority kept).Pairwise (· ≥ ·) ∧ kept.length ≤ bag.capacity :=
  ⟨represents.sorted.sublist (part.map _), part.length_le.trans represents.fits⟩

theorem of_weights {other} (represents : Represents priority bag)
    (same : weights priority other.list = weights priority bag.list)
    (total : other.totalPriority = (weights priority bag.list).sum)
    (capacity : other.capacity = bag.capacity) : Represents priority other := by
  have lengths := congrArg List.length same
  rw [weights, weights, List.length_map, List.length_map] at lengths
  refine ⟨by rw [same]; exact represents.sorted, ?_, by rw [same]; exact total⟩
  rw [lengths, capacity]
  exact represents.fits

/-! ### Adding -/

theorem admitItem {item} (represents : Represents priority bag) (now : ℚ)
    (room : bag.list.length < bag.capacity) :
    Represents priority (admitItem priority bag item now) := by
  obtain ⟨inside, above, below⟩ := insertIndex_parts (priority item) represents.sorted
  generalize index : insertIndex priority bag.list (priority item) = idx at inside above below
  have list : (PriorityBag.admitItem priority bag item now).list =
      bag.list.take idx ++ ⟨item, now⟩ :: bag.list.drop idx := by
    rw [← index]
    exact insertEntry_list priority bag ⟨item, now⟩
  have capacity : (PriorityBag.admitItem priority bag item now).capacity = bag.capacity :=
    insertEntry_capacity priority bag ⟨item, now⟩
  have total : (PriorityBag.admitItem priority bag item now).totalPriority =
      bag.totalPriority + priority item :=
    congrArg (· + priority item) (insertEntry_totalPriority priority bag ⟨item, now⟩)
  have parts : bag.list = bag.list.take idx ++ bag.list.drop idx :=
    (List.take_append_drop idx bag.list).symm
  have sorted := List.pairwise_map.mp represents.sorted
  rw [parts, List.pairwise_append] at sorted
  obtain ⟨firsts, lasts, across⟩ := sorted
  refine ⟨?_, ?_, ?_⟩
  · rw [list]
    refine List.pairwise_map.mpr (List.pairwise_append.mpr ⟨firsts, ?_, ?_⟩)
    · exact List.pairwise_cons.mpr ⟨fun entry member => (below entry member).le, lasts⟩
    · intro first inFirsts other inOthers
      rcases List.mem_cons.mp inOthers with rfl | inLasts
      · exact above first inFirsts
      · exact across first inFirsts other inLasts
  · rw [list, List.length_append, List.length_cons, List.length_take, List.length_drop]
    omega
  · have sums : (weights priority bag.list).sum =
        (weights priority (bag.list.take idx)).sum +
          (weights priority (bag.list.drop idx)).sum := by
      rw [← List.sum_append, weights, weights, weights, ← List.map_append, ← parts]
    rw [list, total, represents.total, sums]
    simp only [weights, List.map_append, List.map_cons, List.sum_append, List.sum_cons]
    ring

theorem sum_dropLast {last} (ends : bag.list.getLast? = some last) :
    (weights priority bag.list.dropLast).sum =
      (weights priority bag.list).sum - priority last.item := by
  obtain ⟨before, shape⟩ := List.getLast?_eq_some_iff.mp ends
  rw [shape, weights, weights, List.map_append]
  simp

theorem dropLast {last} (represents : Represents priority bag)
    (ends : bag.list.getLast? = some last) :
    Represents priority (PriorityBag.dropLast priority
      { bag with totalPriority := bag.totalPriority - priority last.item }) := by
  obtain ⟨sorted, fits⟩ := represents.sublist (List.dropLast_sublist bag.list)
  refine ⟨?_, ?_, ?_⟩
  · rw [dropLast_list]
    exact sorted
  · rw [dropLast_list, dropLast_capacity]
    exact fits
  · rw [dropLast_list, dropLast_totalPriority, sum_dropLast ends, represents.total]

theorem add (represents : Represents priority bag) (item : Item) (now : ℚ) :
    Represents priority (PriorityBag.add priority bag item now).2 := by
  rcases add_cases priority bag item now with
    ⟨_, same⟩ | ⟨room, admitted⟩ | ⟨last, some, full, ends, _, admitted⟩
  · rw [same]
    exact represents
  · rw [admitted]
    exact represents.admitItem now room
  · rw [admitted]
    refine (represents.dropLast ends).admitItem now ?_
    rw [dropLast_list, dropLast_capacity, List.length_dropLast]
    have := represents.fits
    show bag.list.length - 1 < bag.capacity
    omega

/-! ### Drawing -/

theorem syncTree (represents : Represents priority bag) :
    Represents priority (PriorityBag.syncTree priority bag) :=
  represents.of_weights (by rw [syncTree_list]) (by rw [syncTree_totalPriority, represents.total])
    (syncTree_capacity priority bag)

theorem weights_touch (priority : Item → ℚ) (bag : PriorityBag Item) (index : ℕ) (now : ℚ) :
    weights priority (bag.touch index now).list = weights priority bag.list := by
  refine List.ext_getElem? fun i => ?_
  simp only [weights, touch, List.getElem?_map, List.getElem?_modify]
  cases bag.list[i]? with
  | none => rfl
  | some entry =>
    split <;> rfl

theorem touch (represents : Represents priority bag) (index : ℕ) (now : ℚ) :
    Represents priority (bag.touch index now) :=
  represents.of_weights (weights_touch priority bag index now) represents.total rfl

theorem recalcTotalPriority (represents : Represents priority bag) :
    PriorityBag.recalcTotalPriority priority bag = bag := by
  unfold PriorityBag.recalcTotalPriority
  rw [← represents.total]

theorem sample_cases (represents : Represents priority bag) (draw now : ℚ) :
    bag.list = [] ∧ PriorityBag.sample priority bag draw now = (none, bag) ∨
      bag.list ≠ [] ∧ bag.totalPriority ≤ 0 ∧
        PriorityBag.sample priority bag draw now = (bag.list.head?.map (·.item), bag) ∨
      0 < bag.totalPriority ∧
        PriorityBag.sample priority bag draw now =
          (bag.list[(pickWeighted priority bag draw).1]?.map (·.item),
            (PriorityBag.syncTree priority bag).touch (pickWeighted priority bag draw).1 now) := by
  by_cases empty : bag.list = []
  · exact .inl ⟨empty, by rw [sample, if_pos empty]⟩
  · have summed : (if bag.totalPriority ≤ 0 then PriorityBag.recalcTotalPriority priority bag
        else bag) = bag := by
      rw [represents.recalcTotalPriority, ite_self]
    unfold sample
    rw [if_neg empty, summed]
    by_cases none : bag.totalPriority ≤ 0
    · exact .inr (.inl ⟨empty, none, if_pos none⟩)
    · refine .inr (.inr ⟨not_le.mp none, ?_⟩)
      simp only [if_neg none, pickWeighted, syncTree_list]

theorem sample (represents : Represents priority bag) (draw now : ℚ) :
    Represents priority (PriorityBag.sample priority bag draw now).2 := by
  rcases represents.sample_cases draw now with ⟨_, same⟩ | ⟨_, _, same⟩ | ⟨_, drawn⟩
  · rw [same]
    exact represents
  · rw [same]
    exact represents
  · rw [drawn]
    exact represents.syncTree.touch _ now

theorem sampleMany (represents : Represents priority bag) (draws : List (ℚ × ℚ)) :
    Represents priority (PriorityBag.sampleMany priority bag draws).2 :=
  sampleMany_keeps (fun _ draw now before => before.sample draw now) draws represents

/-! ### Removing -/

theorem sum_eraseIdx {index removed} (at_index : bag.list[index]? = some removed) :
    (weights priority (bag.list.eraseIdx index)).sum =
      (weights priority bag.list).sum - priority removed.item := by
  obtain ⟨inside, rfl⟩ := List.getElem?_eq_some_iff.mp at_index
  have parts := List.take_append_drop index bag.list
  rw [List.eraseIdx_eq_take_drop_succ]
  have sums : (weights priority bag.list).sum = (weights priority (bag.list.take index)).sum +
      (priority bag.list[index].item + (weights priority (bag.list.drop (index + 1))).sum) := by
    nth_rewrite 1 [← parts]
    rw [List.drop_eq_getElem_cons inside]
    simp only [weights, List.map_append, List.map_cons, List.sum_append, List.sum_cons]
  rw [sums]
  simp only [weights, List.map_append, List.sum_append]
  ring

theorem dropAt (represents : Represents priority bag) (index : ℕ) :
    Represents priority (PriorityBag.dropAt priority bag index) := by
  unfold PriorityBag.dropAt
  cases at_index : bag.list[index]? with
  | none => exact represents
  | some removed =>
    obtain ⟨sorted, fits⟩ := represents.sublist (List.eraseIdx_sublist bag.list index)
    exact ⟨sorted, fits, by
      rw [represents.total]
      exact (sum_eraseIdx at_index).symm⟩

theorem remove [DecidableEq Item] (represents : Represents priority bag) (idOf : Item → String)
    (idOrItem : String ⊕ Item) :
    Represents priority (PriorityBag.remove priority idOf bag idOrItem).2 := by
  unfold PriorityBag.remove
  cases indexOf idOf bag idOrItem with
  | none => exact represents
  | some idx => exact represents.dropAt idx

theorem removeAll (represents : Represents priority bag) (idOf : Item → String)
    (ids : List String) : Represents priority (PriorityBag.removeAll priority idOf bag ids) := by
  unfold PriorityBag.removeAll
  split
  · exact represents
  · simp only
    split
    · exact represents
    · obtain ⟨sorted, fits⟩ :=
        represents.sublist (List.filter_sublist (p := fun entry => decide (idOf entry.item ∉ ids)))
      exact ⟨sorted, fits, rfl⟩

theorem removeManyFrom (represents : Represents priority bag) (predicate : Item → ℚ → Bool)
    (count : ℕ) :
    Represents priority (PriorityBag.removeManyFrom priority predicate count bag) :=
  removeManyFrom_keeps (fun _ index before => before.dropAt index) predicate count represents

theorem clear (priority : Item → ℚ) (bag : PriorityBag Item) : Represents priority bag.clear :=
  ⟨.nil, Nat.zero_le _, rfl⟩

/-! ### Evicting -/

theorem evict (represents : Represents priority bag) {strategy left}
    (done : PriorityBag.evict priority bag strategy = some left) : Represents priority left := by
  cases strategy with
  | lowestPriority =>
    unfold PriorityBag.evict at done
    cases ends : bag.list.getLast? with
    | none =>
      simp only [ends, Option.some.injEq] at done
      exact done ▸ represents
    | some last =>
      simp only [ends, Option.some.injEq] at done
      have dropped := represents.dropLast ends
      exact done ▸ ⟨dropped.sorted, dropped.fits, dropped.total⟩
  | lru =>
    unfold PriorityBag.evict at done
    cases oldest : leastRecent 0 none bag.list with
    | none =>
      simp only [oldest, Option.some.injEq] at done
      exact done ▸ represents
    | some found =>
      simp only [oldest, Option.some.injEq] at done
      exact done ▸ represents.dropAt found.1
  | random draw =>
    simp only [PriorityBag.evict] at done
    split at done
    · exact Option.some.inj done ▸ represents
    · split at done
      · exact Option.some.inj done ▸ represents.dropAt _
      · cases done

/-! ### Decaying -/

theorem decay [DecidableEq Item] (represents : Represents priority bag) {rate}
    (steady : Steady (rate.getD bag.decayRate) bag.forgetRate priority bag.list) :
    Represents (PriorityBag.decay priority bag rate).1 (PriorityBag.decay priority bag rate).2 := by
  obtain ⟨list, same, total⟩ := decay_eq steady
  refine ⟨?_, ?_, total⟩
  · rw [same]
    have sorted := List.pairwise_map.mp represents.sorted
    refine List.pairwise_map.mpr ((sorted.filter _).imp_of_mem ?_)
    intro first second inFirst inSecond order
    obtain ⟨hasFirst, keptFirst⟩ := mem_lasting.mp inFirst
    obtain ⟨hasSecond, keptSecond⟩ := mem_lasting.mp inSecond
    exact decayed_le_decayed order
      (fun high _ _ => steady.1 high first hasFirst second hasSecond keptFirst keptSecond)
      keptFirst keptSecond
  · rw [list]
    exact List.length_filter_le _ _ |>.trans represents.fits

end Represents

/-! ### Runs -/

/-- An operation lets the bag decay only where that makes no difference between an item and its
entries. -/
def DecaysSteadily [DecidableEq Item] (state : BagState Item) : BagEvent Item → Prop
  | .decay rate =>
    Steady (rate.getD state.bag.decayRate) state.bag.forgetRate state.priority state.bag.list
  | _ => True

theorem represents_step [DecidableEq Item] {idOf : Item → String} {state next event}
    (represents : Represents state.priority state.bag) (steady : DecaysSteadily state event)
    (taken : bagStep idOf state event = some next) : Represents next.priority next.bag := by
  cases event with
  | evict strategy =>
    obtain ⟨left, done, rfl⟩ := Option.map_eq_some_iff.mp taken
    exact represents.evict done
  | add item now => exact Option.some.inj taken ▸ represents.add item now
  | sample draw now => exact Option.some.inj taken ▸ represents.sample draw now
  | sampleMany draws => exact Option.some.inj taken ▸ represents.sampleMany draws
  | remove idOrItem => exact Option.some.inj taken ▸ represents.remove idOf idOrItem
  | removeAll ids => exact Option.some.inj taken ▸ represents.removeAll idOf ids
  | removeMany predicate => exact Option.some.inj taken ▸ represents.removeManyFrom predicate _
  | decay rate => exact Option.some.inj taken ▸ represents.decay steady
  | clear => exact Option.some.inj taken ▸ Represents.clear _ _
  | setDecayRate value =>
    exact Option.some.inj taken ▸ ⟨represents.sorted, represents.fits, represents.total⟩

/-- The empty bag of a capacity and two rates, over items of any priorities. -/
def emptyBag (priority : Item → ℚ) (capacity : ℕ) (decayRate forgetRate : ℚ) : BagState Item :=
  ⟨priority, { capacity, decayRate, forgetRate }⟩

theorem represents_emptyBag (priority : Item → ℚ) (capacity : ℕ) (decayRate forgetRate : ℚ) :
    Represents (emptyBag priority capacity decayRate forgetRate).priority
      (emptyBag priority capacity decayRate forgetRate).bag :=
  ⟨.nil, Nat.zero_le _, rfl⟩

/-- Whatever is done to a bag, it is what it stands for, and refusing an item leaves it as it is,
where it decays steadily. -/
theorem represents_of_run [DecidableEq Item] {idOf : Item → String} {capacity : ℕ}
    {decayRate forgetRate : ℚ} {events : List (BagEvent Item)} {last : BagState Item}
    (run : Run (bagStep idOf) (emptyBag priority capacity decayRate forgetRate) events last)
    (meets : Run.Meets (bagStep idOf) DecaysSteadily
      (emptyBag priority capacity decayRate forgetRate) events) :
    Represents last.priority last.bag ∧
      ∀ item now, (add last.priority last.bag item now).1 = false →
        (add last.priority last.bag item now).2 = last.bag := by
  refine ⟨?_, fun item now refused => add_refused refused⟩
  have keeps : ∀ (state : BagState Item) (event : BagEvent Item) (next : BagState Item),
      Represents state.priority state.bag → DecaysSteadily state event →
      bagStep idOf state event = some next → Represents next.priority next.bag :=
    fun _ _ _ represents steady taken => represents_step represents steady taken
  have kept := run.keeps_of_meets keeps meets
    (represents_emptyBag priority capacity decayRate forgetRate)
  exact kept

/-- Two items that are added and decay. -/
def twoItems : List (BagEvent ℕ) := [.add 0 0, .add 1 0, .decay none]

theorem represents_of_run_twoItems :
    ∃ last, Run (bagStep toString) (emptyBag (fun _ => 1) 2 (1 / 100) 0) twoItems last ∧
      Represents last.priority last.bag := by
  have canRun : (execute (bagStep toString) (emptyBag (fun _ => 1) 2 (1 / 100) 0)
      twoItems).isSome = true := by decide +kernel
  obtain ⟨last, done⟩ := Option.isSome_iff_exists.mp canRun
  have steady : Steady (1 / 100) 0 (fun _ => 1) [⟨0, 0⟩, (⟨1, 0⟩ : InternalEntry ℕ)] :=
    steady_of_nodup (by norm_num) (by decide)
  refine ⟨last, run_of_execute done, (represents_of_run (run_of_execute done) ?_).1⟩
  exact .cons trivial rfl (.cons trivial rfl (.cons steady rfl (.nil _)))

/-- One item that is added twice and decays by half. -/
def oneItemTwice : List (BagEvent ℕ) := [.add 0 0, .add 0 0, .decay (some (1 / 2))]

theorem decay_twice_miscounts :
    ¬ ∀ (priority : ℕ → ℚ) (capacity : ℕ) (decayRate forgetRate : ℚ)
      (events : List (BagEvent ℕ)) (last : BagState ℕ),
      Run (bagStep toString) (emptyBag priority capacity decayRate forgetRate) events last →
        Represents last.priority last.bag := by
  intro always
  have canRun : (execute (bagStep toString) (emptyBag (fun _ => 1) 2 (1 / 100) 0)
      oneItemTwice).any (fun last =>
        last.bag.totalPriority ≠ (weights last.priority last.bag.list).sum) = true := by
    decide +kernel
  obtain ⟨last, done, miscounted⟩ := (Option.any_eq_true _ _).mp canRun
  exact of_decide_eq_true miscounted (always _ _ _ _ _ _ (run_of_execute done)).total

end Senars.Bag
