/-
This file is about the pick of a best item: a scan that keeps the first of the greatest score.
An item that was seen before never wins, so the pick depends only on the order in which the
different items first occur; and two lists in which they first occur in different orders differ
in the pick for some score.
-/

import Senars.Library.Lists
import Senars.SystemOne.Dispatcher

namespace Senars.Learning

open Library Library.JsNumber SystemOne

variable {Item : Type} {score : Item → JsNumber}

/-- One step of the scan. -/
def better (score : Item → JsNumber) (best : Option Item × JsNumber) (item : Item) :
    Option Item × JsNumber :=
  if less best.2 (score item) then (some item, score item) else best

theorem maxBy_eq (items : List Item) (score : Item → JsNumber) :
    maxBy items score = (items.foldl (better score) (none, .infinite true)).1 := rfl

theorem less_irrefl (number : JsNumber) : less number number = false := by
  cases number with
  | nan => rfl
  | infinite negative => cases negative <;> rfl
  | finite value => simp

theorem less_of_less {low high other} (greater : less low high = true)
    (beaten : less low other = false) : less high other = false := by
  cases low <;> cases high <;> cases other <;> simp_all [less]
  exact beaten.trans greater.le

theorem maxBy_find (items : List Item) (chosen : Item → Bool) :
    maxBy items (fun item => if chosen item then 1 else .infinite true) = items.find? chosen := by
  have stays : ∀ (later : List Item) (item : Item),
      later.foldl (better fun item => if chosen item then 1 else .infinite true) (some item, 1) =
        (some item, 1) := by
    intro later item
    induction later with
    | nil => rfl
    | cons next rest ih =>
      have loses : less 1 (if chosen next then 1 else .infinite true) = false := by
        cases chosen next with
        | true => exact less_irrefl 1
        | false => rfl
      rw [List.foldl_cons, better, if_neg (Bool.eq_false_iff.mp loses), ih]
  rw [maxBy_eq]
  induction items with
  | nil => rfl
  | cons item rest ih =>
    rw [List.foldl_cons, better]
    cases picked : chosen item with
    | true =>
      rw [List.find?_cons_of_pos picked]
      simp only [if_true]
      rw [if_pos (by rfl), stays]
    | false =>
      rw [List.find?_cons_of_neg (by simpa using picked)]
      rw [if_neg (by simp [less_irrefl]), ih]

variable [DecidableEq Item]

theorem foldl_better_unique (seen : List Item) (best : Option Item × JsNumber) (items : List Item)
    (beaten : ∀ item ∈ seen, less best.2 (score item) = false) :
    items.foldl (better score) best = (uniqueByFrom id seen items).foldl (better score) best := by
  induction items generalizing seen best with
  | nil => rfl
  | cons item rest ih =>
    rw [uniqueByFrom, List.foldl_cons]
    split
    · next old =>
      have stays : better score best item = best := by
        unfold better
        rw [beaten item old, if_neg Bool.false_ne_true]
      rw [stays]
      exact ih seen best beaten
    · rw [List.foldl_cons]
      refine ih _ _ fun other inside => ?_
      unfold better
      split
      · next wins =>
        rcases List.mem_cons.mp inside with rfl | old
        · exact less_irrefl _
        · exact less_of_less wins (beaten other old)
      · next loses =>
        rcases List.mem_cons.mp inside with rfl | old
        · exact Bool.eq_false_iff.mpr loses
        · exact beaten other old

theorem maxBy_uniqueBy (items : List Item) (score : Item → JsNumber) :
    maxBy (uniqueBy id items) score = maxBy items score := by
  exact congrArg Prod.fst (foldl_better_unique [] _ items (by simp)).symm

theorem eq_of_find_eq {first second : List Item} (firstNodup : first.Nodup)
    (secondNodup : second.Nodup)
    (same : ∀ chosen : Item → Bool, first.find? chosen = second.find? chosen) :
    first = second := by
  induction first generalizing second with
  | nil =>
    cases second with
    | nil => rfl
    | cons item rest => cases same fun _ => true
  | cons item rest ih =>
    cases second with
    | nil => cases same fun _ => true
    | cons other later =>
      obtain rfl : item = other := Option.some.inj (same fun _ => true)
      obtain ⟨firstAbsent, restNodup⟩ := List.nodup_cons.mp firstNodup
      obtain ⟨secondAbsent, laterNodup⟩ := List.nodup_cons.mp secondNodup
      refine congrArg _ (ih restNodup laterNodup fun chosen => ?_)
      have others := same fun candidate => decide (candidate ≠ item) && chosen candidate
      have find_rest : ∀ {list : List Item}, item ∉ list →
          (item :: list).find? (fun candidate => decide (candidate ≠ item) && chosen candidate) =
            list.find? chosen := by
        intro list absent
        rw [List.find?_cons_of_neg (by simp), ← List.head?_filter, ← List.head?_filter]
        refine congrArg List.head? (List.filter_congr fun candidate inside => ?_)
        have other : candidate ≠ item := fun same => absent (same ▸ inside)
        rw [decide_eq_true other, Bool.true_and]
      rwa [find_rest firstAbsent, find_rest secondAbsent] at others

theorem maxBy_eq_iff (first second : List Item) :
    (∀ score : Item → JsNumber, maxBy first score = maxBy second score) ↔
      uniqueBy id first = uniqueBy id second := by
  constructor
  · intro same
    refine eq_of_find_eq ?_ ?_ fun chosen => ?_
    · simpa using uniqueBy_nodup id first
    · simpa using uniqueBy_nodup id second
    · rw [← maxBy_find, ← maxBy_find, maxBy_uniqueBy, maxBy_uniqueBy]
      exact same _
  · intro same score
    rw [← maxBy_uniqueBy first, ← maxBy_uniqueBy second, same]

end Senars.Learning
