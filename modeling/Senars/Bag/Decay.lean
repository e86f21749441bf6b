/-
This file is about a bag that decays. An item the bag holds twice decays twice, the second
time after its first entry has been counted. Where this makes no difference, each item that
is kept has decayed once, and the bag has the sum of what is kept for its total.
-/

import Senars.Bag.PriorityBag

namespace Senars.Bag

open Library PriorityBag

variable {Item : Type} {rate forgetRate : ℚ}

/-- A priority that decaying leaves as it is, or that has come to nothing and stays there. -/
def Done (rate forgetRate value : ℚ) : Prop :=
  decayed rate forgetRate value = value ∨ value ≤ 0 ∧ decayed rate forgetRate value ≤ 0

/-- Decaying once and no further makes up what happens to a store: items that are kept by a rate
above one, which are those of negative priority, have the same priority, and the priority of an
item that is held more than once is done with when it has decayed once. -/
def Steady [DecidableEq Item] (rate forgetRate : ℚ) (priority : Item → ℚ)
    (store : List (InternalEntry Item)) : Prop :=
  (1 < rate → ∀ first ∈ store, ∀ second ∈ store,
    0 < decayed rate forgetRate (priority first.item) →
      0 < decayed rate forgetRate (priority second.item) →
        priority first.item = priority second.item) ∧
  ∀ item, 1 < (store.map (·.item)).count item →
    Done rate forgetRate (decayed rate forgetRate (priority item))

namespace PriorityBag

theorem decayed_nonpos (low : rate ≤ 1) {value} (nothing : value ≤ 0) :
    decayed rate forgetRate value ≤ 0 := by
  unfold decayed
  split
  · exact le_rfl
  · exact mul_nonpos_of_nonpos_of_nonneg nothing (sub_nonneg.mpr low)

theorem decayed_eq_retain {value} (kept : 0 < decayed rate forgetRate value) :
    decayed rate forgetRate value = retain value rate := by
  unfold decayed at kept ⊢
  split at kept
  · exact absurd kept (lt_irrefl 0)
  · next notForgotten => exact if_neg notForgotten

theorem decayed_le_decayed {first second} (order : second ≤ first)
    (turned : 1 < rate → 0 < decayed rate forgetRate first →
      0 < decayed rate forgetRate second → first = second)
    (keptFirst : 0 < decayed rate forgetRate first)
    (keptSecond : 0 < decayed rate forgetRate second) :
    decayed rate forgetRate second ≤ decayed rate forgetRate first := by
  rcases le_or_gt rate 1 with low | high
  · rw [decayed_eq_retain keptFirst, decayed_eq_retain keptSecond]
    exact mul_le_mul_of_nonneg_right order (sub_nonneg.mpr low)
  · rw [turned high keptFirst keptSecond]

end PriorityBag

theorem Done.decayed {value} (done : Done rate forgetRate value) :
    Done rate forgetRate (decayed rate forgetRate value) := by
  rcases done with same | ⟨nothing, further⟩
  · exact .inl (by rw [same, same])
  · refine .inr ⟨further, ?_⟩
    rcases le_or_gt rate 1 with low | high
    · exact decayed_nonpos low further
    · have zero : PriorityBag.decayed rate forgetRate value = 0 := by
        refine le_antisymm further ?_
        unfold PriorityBag.decayed
        split
        · exact le_rfl
        · exact mul_nonneg_of_nonpos_of_nonpos nothing (sub_nonpos.mpr high.le)
      rw [zero]
      unfold PriorityBag.decayed
      split
      · exact le_rfl
      · simp [retain]

section

variable [DecidableEq Item]

variable {priority before now : Item → ℚ} {entry : InternalEntry Item}
  {rest : List (InternalEntry Item)}

theorem steady_of_nodup {store} (low : rate ≤ 1) (distinct : (store.map (·.item)).Nodup) :
    Steady rate forgetRate priority store := by
  refine ⟨fun high => absurd high (not_lt.mpr low), fun item often => ?_⟩
  have once := List.nodup_iff_count_le_one.mp distinct item
  omega

/-! ### One pass over the store -/

/-- An item that has had its turn: its priority is that of the item decayed once and stays so, or
it has come to nothing. -/
def HadTurn (rate forgetRate : ℚ) (before now : Item → ℚ) (item : Item) : Prop :=
  now item = decayed rate forgetRate (before item) ∧
      decayed rate forgetRate (now item) = now item ∨
    now item ≤ 0 ∧ decayed rate forgetRate (now item) ≤ 0 ∧
      decayed rate forgetRate (before item) ≤ 0

/-- An item of what is left of the store is as it was before, or it has had its turn. -/
def Ready (rate forgetRate : ℚ) (before now : Item → ℚ) (rest : List (InternalEntry Item))
    (item : Item) : Prop :=
  now item = before item ∧ (1 < (rest.map (·.item)).count item →
      Done rate forgetRate (decayed rate forgetRate (before item))) ∨
    HadTurn rate forgetRate before now item

theorem Ready.turn (ready : Ready rate forgetRate before now (entry :: rest) entry.item) :
    (decayed rate forgetRate (now entry.item) = decayed rate forgetRate (before entry.item) ∨
      decayed rate forgetRate (now entry.item) ≤ 0 ∧
        decayed rate forgetRate (before entry.item) ≤ 0) ∧
      (entry.item ∈ rest.map (·.item) →
        HadTurn rate forgetRate before (Function.update now entry.item
          (decayed rate forgetRate (now entry.item))) entry.item) := by
  unfold HadTurn
  rw [Function.update_self]
  rcases ready with ⟨same, done⟩ | ⟨same, stays⟩ | ⟨nothing, further, beforeNothing⟩
  · rw [same]
    refine ⟨.inl rfl, fun again => ?_⟩
    rw [List.map_cons, List.count_cons_self] at done
    have once := List.count_pos_iff.mpr again
    rcases done (by omega) with settled | ⟨low, furtherLow⟩
    · exact .inl ⟨rfl, settled⟩
    · exact .inr ⟨low, furtherLow, low⟩
  · rw [stays]
    exact ⟨.inl same, fun _ => .inl ⟨same, stays⟩⟩
  · refine ⟨.inr ⟨further, beforeNothing⟩, fun _ => .inr ⟨further, ?_, beforeNothing⟩⟩
    rcases Done.decayed (.inr ⟨nothing, further⟩) with settled | ⟨_, low⟩
    · rw [settled]
      exact further
    · exact low

theorem Ready.later {item} (other : item ≠ entry.item) (value : ℚ)
    (ready : Ready rate forgetRate before now (entry :: rest) item) :
    Ready rate forgetRate before (Function.update now entry.item value) rest item := by
  unfold Ready HadTurn at ready ⊢
  rw [Function.update_of_ne other]
  rw [List.map_cons, List.count_cons_of_ne other.symm] at ready
  exact ready

theorem decayLoop_eq (ready : ∀ entry ∈ rest, Ready rate forgetRate before now rest entry.item) :
    (decayLoop rate forgetRate now rest).2.1 =
        rest.filter (fun entry => decide (0 < decayed rate forgetRate (before entry.item))) ∧
      (decayLoop rate forgetRate now rest).2.2 =
        ((decayLoop rate forgetRate now rest).2.1.map fun entry =>
          decayed rate forgetRate (before entry.item)).sum ∧
      (∀ entry ∈ rest, 0 < decayed rate forgetRate (before entry.item) →
        (decayLoop rate forgetRate now rest).1 entry.item =
          decayed rate forgetRate (before entry.item)) ∧
      ∀ item, item ∉ rest.map (·.item) →
        (decayLoop rate forgetRate now rest).1 item = now item := by
  induction rest generalizing now with
  | nil =>
    refine ⟨rfl, rfl, ?_, fun _ _ => rfl⟩
    rintro entry ⟨⟩
  | cons entry rest ih =>
    obtain ⟨value, again⟩ := (ready entry List.mem_cons_self).turn
    generalize left_eq : decayed rate forgetRate (now entry.item) = left at value again
    have readyLater : ∀ other ∈ rest, Ready rate forgetRate before
        (Function.update now entry.item left) rest other.item := by
      intro other member
      by_cases same : other.item = entry.item
      · rw [same]
        exact .inr (again (same ▸ List.mem_map_of_mem member))
      · exact (ready other (List.mem_cons_of_mem _ member)).later same left
    obtain ⟨kept, counted, final, outside⟩ := ih readyLater
    have sameSign : 0 < left ↔ 0 < decayed rate forgetRate (before entry.item) := by
      rcases value with same | ⟨low, lowBefore⟩
      · rw [same]
      · exact iff_of_false (not_lt.mpr low) (not_lt.mpr lowBefore)
    have finalHere : 0 < decayed rate forgetRate (before entry.item) →
        (decayLoop rate forgetRate (Function.update now entry.item left) rest).1 entry.item =
          decayed rate forgetRate (before entry.item) := by
      intro positive
      by_cases member : entry.item ∈ rest.map (·.item)
      · obtain ⟨other, isLater, same⟩ := List.mem_map.mp member
        have found := final other isLater (by rw [same]; exact positive)
        rwa [same] at found
      · rw [outside _ member, Function.update_self]
        exact value.resolve_right fun low => absurd positive (not_lt.mpr low.2)
    have pass : decayLoop rate forgetRate now (entry :: rest) =
        (let later := decayLoop rate forgetRate (Function.update now entry.item left) rest
        if 0 < left then (later.1, entry :: later.2.1, left + later.2.2) else later) := by
      rw [← left_eq]
      rfl
    have first : (decayLoop rate forgetRate now (entry :: rest)).1 =
        (decayLoop rate forgetRate (Function.update now entry.item left) rest).1 := by
      rw [pass]
      split <;> rfl
    have parts : (decayLoop rate forgetRate now (entry :: rest)).2.1 =
          (entry :: rest).filter
            (fun entry => decide (0 < decayed rate forgetRate (before entry.item))) ∧
        (decayLoop rate forgetRate now (entry :: rest)).2.2 =
          ((decayLoop rate forgetRate now (entry :: rest)).2.1.map fun entry =>
            decayed rate forgetRate (before entry.item)).sum := by
      by_cases positive : 0 < left
      · have worth := sameSign.mp positive
        have same := value.resolve_right fun low => absurd positive (not_lt.mpr low.1)
        rw [pass, if_pos positive, List.filter_cons_of_pos (by rwa [decide_eq_true_iff])]
        exact ⟨by rw [kept], by rw [List.map_cons, List.sum_cons, counted, same]⟩
      · have worthless := mt sameSign.mpr positive
        rw [pass, if_neg positive, List.filter_cons_of_neg (by rwa [decide_eq_true_iff])]
        exact ⟨kept, counted⟩
    rw [first]
    refine ⟨parts.1, parts.2, ?_, ?_⟩
    · intro other member positive
      rcases List.mem_cons.mp member with rfl | isLater
      · exact finalHere positive
      · exact final other isLater positive
    · intro item notMember
      rw [List.map_cons, List.mem_cons, not_or] at notMember
      rw [outside item notMember.2, Function.update_of_ne notMember.1]

/-- What is worth something once it has decayed. -/
def lasting (rate forgetRate : ℚ) (priority : Item → ℚ) (store : List (InternalEntry Item)) :
    List (InternalEntry Item) :=
  store.filter fun entry => decide (0 < decayed rate forgetRate (priority entry.item))

omit [DecidableEq Item] in
theorem mem_lasting {store} :
    entry ∈ lasting rate forgetRate priority store ↔
      entry ∈ store ∧ 0 < decayed rate forgetRate (priority entry.item) := by
  rw [lasting, List.mem_filter, decide_eq_true_iff]

theorem decay_eq_of_done {bag rate} (done : ∀ item, 1 < (bag.list.map (·.item)).count item →
      Done (rate.getD bag.decayRate) bag.forgetRate
        (decayed (rate.getD bag.decayRate) bag.forgetRate (priority item))) :
    (decay priority bag rate).2.list =
        lasting (rate.getD bag.decayRate) bag.forgetRate priority bag.list ∧
      weights (decay priority bag rate).1 (decay priority bag rate).2.list =
        (lasting (rate.getD bag.decayRate) bag.forgetRate priority bag.list).map
          (fun entry => decayed (rate.getD bag.decayRate) bag.forgetRate (priority entry.item)) ∧
      (decay priority bag rate).2.totalPriority =
        (weights (decay priority bag rate).1 (decay priority bag rate).2.list).sum := by
  have ready : ∀ entry ∈ bag.list, Ready (rate.getD bag.decayRate) bag.forgetRate priority priority
      bag.list entry.item := fun entry _ => .inl ⟨rfl, done entry.item⟩
  obtain ⟨kept, counted, final, _⟩ := decayLoop_eq ready
  have list : (decay priority bag rate).2.list =
      lasting (rate.getD bag.decayRate) bag.forgetRate priority bag.list := kept
  have same : weights (decay priority bag rate).1 (decay priority bag rate).2.list =
      (lasting (rate.getD bag.decayRate) bag.forgetRate priority bag.list).map
        fun entry => decayed (rate.getD bag.decayRate) bag.forgetRate (priority entry.item) := by
    rw [list]
    refine List.map_congr_left fun entry member => ?_
    exact final entry (mem_lasting.mp member).1 (mem_lasting.mp member).2
  refine ⟨list, same, ?_⟩
  rw [same]
  exact counted.trans (by rw [kept]; rfl)

theorem decay_eq {bag} {rate : Option ℚ}
    (steady : Steady (rate.getD bag.decayRate) bag.forgetRate priority bag.list) :
    (decay priority bag rate).2.list =
        lasting (rate.getD bag.decayRate) bag.forgetRate priority bag.list ∧
      weights (decay priority bag rate).1 (decay priority bag rate).2.list =
        (lasting (rate.getD bag.decayRate) bag.forgetRate priority bag.list).map
          (fun entry => decayed (rate.getD bag.decayRate) bag.forgetRate (priority entry.item)) ∧
      (decay priority bag rate).2.totalPriority =
        (weights (decay priority bag rate).1 (decay priority bag rate).2.list).sum :=
  decay_eq_of_done steady.2

end

end Senars.Bag
