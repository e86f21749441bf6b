/-
This file is about running tallies: a number for each key that is added to. What is tallied
under a key is the sum of what was added under it, in whatever order, since the addition of
script numbers commutes and associates where it is exact, and not a number stays.
-/

import Senars.Library.JsNumber
import Senars.Library.OrderedMap

namespace Senars.Library

/-! ### Sums of numbers -/

namespace JsNumber

theorem addition_comm (first second : JsNumber) : first + second = second + first := by
  cases first with
  | nan => cases second <;> rfl
  | infinite firstNegative =>
    cases second with
    | nan => rfl
    | infinite secondNegative => cases firstNegative <;> cases secondNegative <;> rfl
    | finite value => rfl
  | finite firstValue =>
    cases second with
    | nan => rfl
    | infinite negative => rfl
    | finite secondValue => exact congrArg finite (Rat.add_comm firstValue secondValue)

theorem addition_assoc (first second third : JsNumber) :
    first + second + third = first + (second + third) := by
  show add (add first second) third = add first (add second third)
  cases first <;> cases second <;> cases third <;> simp only [add] <;> grind

theorem ne_nan_of_addition {first second : JsNumber} (isNumber : first + second ≠ .nan) :
    first ≠ .nan ∧ second ≠ .nan := by
  constructor
  · rintro rfl
    exact isNumber (by cases second <;> rfl)
  · rintro rfl
    exact isNumber (by cases first <;> rfl)

/-- The sum of numbers, from a start on. -/
def sumFrom (start : JsNumber) (numbers : List JsNumber) : JsNumber :=
  numbers.foldl (· + ·) start

theorem sumFrom_perm {first second} (same : first.Perm second) (start : JsNumber) :
    sumFrom start first = sumFrom start second := by
  refine same.foldl_eq' (fun first _ second _ start => ?_) start
  rw [addition_assoc, addition_comm first second, ← addition_assoc]

theorem ne_nan_of_sumFrom {numbers start} (isNumber : sumFrom start numbers ≠ .nan) :
    start ≠ .nan ∧ ∀ number ∈ numbers, number ≠ .nan := by
  induction numbers generalizing start with
  | nil => exact ⟨isNumber, by simp⟩
  | cons number rest ih =>
    obtain ⟨sum, later⟩ := ih isNumber
    obtain ⟨first, second⟩ := ne_nan_of_addition sum
    exact ⟨first, List.forall_mem_cons.mpr ⟨second, later⟩⟩

end JsNumber

/-! ### Tallies -/

variable {Key Item : Type} [DecidableEq Key]

/-- Accumulate a count under a key. -/
def incrementCount (map : OrderedMap Key JsNumber) (key : Key) (delta : JsNumber) :
    OrderedMap Key JsNumber :=
  map.set key ((map.get key).getD 0 + delta)

/-- What is added under a key by a list of items. -/
def amountsOf (keyOf : Item → Key) (delta : Item → JsNumber) (key : Key) (items : List Item) :
    List JsNumber :=
  (items.filter (keyOf · = key)).map delta

theorem amountsOf_cons (keyOf : Item → Key) (delta : Item → JsNumber) (key : Key) (item : Item)
    (rest : List Item) :
    amountsOf keyOf delta key (item :: rest) =
      if keyOf item = key then delta item :: amountsOf keyOf delta key rest
      else amountsOf keyOf delta key rest := by
  unfold amountsOf
  by_cases same : keyOf item = key <;> simp [same]

theorem get_foldl_incrementCount (keyOf : Item → Key) (delta : Item → JsNumber) (items : List Item)
    (map : OrderedMap Key JsNumber) (key : Key) :
    (items.foldl (fun map item => incrementCount map (keyOf item) (delta item)) map).get key =
      if amountsOf keyOf delta key items = [] then map.get key
      else some (JsNumber.sumFrom ((map.get key).getD 0) (amountsOf keyOf delta key items)) := by
  induction items generalizing map with
  | nil => rfl
  | cons item rest ih =>
    rw [List.foldl_cons, ih, amountsOf_cons]
    unfold incrementCount
    rw [OrderedMap.get_set]
    by_cases same : keyOf item = key
    · subst same
      rw [if_pos rfl, if_pos rfl]
      split
      · rename_i nothing
        rw [nothing]
        rfl
      · rfl
    · rw [if_neg (Ne.symm same), if_neg same]

end Senars.Library
