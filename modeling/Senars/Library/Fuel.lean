/-
This file is about functions that take fuel and have no answer when it runs out. Such a function
settles on an answer when it has that answer from some fuel on, which is what it means for the
function without fuel to end with it. The last part is about computations that may fail.
-/

import Mathlib.Data.Nat.Notation

namespace Senars.Library

variable {Answer Other : Type} {run next : ℕ → Option Answer}

/-- With enough fuel the answer is always this one. -/
def Settles (run : ℕ → Option Answer) (answer : Answer) : Prop :=
  ∃ enough, ∀ fuel, enough ≤ fuel → run fuel = some answer

theorem Settles.unique {first second} (settles : Settles run first) (again : Settles run second) :
    first = second := by
  obtain ⟨enough, answers⟩ := settles
  obtain ⟨enoughAgain, answersAgain⟩ := again
  have one := answers (max enough enoughAgain) (Nat.le_max_left _ _)
  have other := answersAgain (max enough enoughAgain) (Nat.le_max_right _ _)
  exact Option.some.inj (one.symm.trans other)

theorem settles_const (answer : Answer) : Settles (fun _ => some answer) answer :=
  ⟨0, fun _ _ => rfl⟩

theorem Settles.spend {answer} (settles : Settles run answer)
    (spends : ∀ fuel, next (fuel + 1) = run fuel) : Settles next answer := by
  obtain ⟨enough, answers⟩ := settles
  refine ⟨enough + 1, fun fuel atLeast => ?_⟩
  obtain ⟨less, rfl⟩ := Nat.exists_eq_add_of_le' (Nat.le_of_add_left_le atLeast)
  rw [spends]
  exact answers less (Nat.le_of_add_le_add_right atLeast)

theorem Settles.bind {later : Answer → ℕ → Option Other} {answer last}
    (settles : Settles run answer) (settlesLater : Settles (later answer) last) :
    Settles (fun fuel => (run fuel).bind fun answer => later answer fuel) last := by
  obtain ⟨enough, answers⟩ := settles
  obtain ⟨enoughLater, answersLater⟩ := settlesLater
  refine ⟨max enough enoughLater, fun fuel atLeast => ?_⟩
  obtain ⟨first, second⟩ := Nat.max_le.mp atLeast
  show (run fuel).bind _ = some last
  rw [answers fuel first]
  exact answersLater fuel second

theorem Settles.map {answer} (settles : Settles run answer) (change : Answer → Other) :
    Settles (fun fuel => (run fuel).map change) (change answer) := by
  obtain ⟨enough, answers⟩ := settles
  refine ⟨enough, fun fuel atLeast => ?_⟩
  show (run fuel).map change = some (change answer)
  rw [answers fuel atLeast, Option.map_some]

/-! ### Computations that may fail -/

section

variable {Error Value Result : Type} {first : Except Error Value}
  {later : Value → Except Error Result}

theorem bind_eq_ok {result} :
    first >>= later = .ok result ↔ ∃ value, first = .ok value ∧ later value = .ok result := by
  cases first with
  | error error => exact iff_of_false (by rintro ⟨⟩) (by rintro ⟨_, ⟨⟩, _⟩)
  | ok value =>
    constructor
    · exact fun ran => ⟨value, rfl, ran⟩
    · rintro ⟨_, ⟨⟩, ran⟩
      exact ran

theorem bind_eq_error {error} :
    first >>= later = .error error ↔
      first = .error error ∨ ∃ value, first = .ok value ∧ later value = .error error := by
  cases first with
  | error found =>
    refine ⟨fun failed => .inl (congrArg _ (Except.error.inj failed)), ?_⟩
    rintro (failed | ⟨_, ⟨⟩, _⟩)
    exact congrArg _ (Except.error.inj failed)
  | ok value =>
    refine ⟨fun failed => .inr ⟨value, rfl, failed⟩, ?_⟩
    rintro (⟨⟨⟩⟩ | ⟨_, ⟨⟩, failed⟩)
    exact failed

end

end Senars.Library
