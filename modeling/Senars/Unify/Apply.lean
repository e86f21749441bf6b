/-
This file is about the value substituting through a term gives. Application is
run with fuel in the model, so its value is what it gives from some fuel on; more
fuel never changes an answer, and the rules below say what the value is without
mentioning fuel.
-/

import Senars.Unify.OccursCheck

namespace Senars.Unify

open Library

section Apply

variable {Node Failure : Type} {ast : UnifierDialect Node Failure} [DecidableEq Node]
  {subst : Substitution Node}

/-! ### More fuel changes no answer -/

omit [DecidableEq Node] in
theorem applyAll_mono {first second kids}
    (each : ∀ kid ∈ kids, ∀ answer, first kid = some answer → second kid = some answer)
    {answer : Except Failure (List Node)} (done : applyAll first kids = some answer) :
    applyAll second kids = some answer := by
  induction kids generalizing answer with
  | nil => exact done
  | cons kid rest ih =>
    rw [applyAll] at done ⊢
    cases kidDone : first kid with
    | none => rw [kidDone] at done; cases done
    | some kidAnswer =>
      rw [each kid List.mem_cons_self kidAnswer kidDone]
      rw [kidDone] at done
      cases kidAnswer with
      | error error => exact done
      | ok next =>
        cases restDone : applyAll first rest with
        | none => rw [restDone] at done; cases done
        | some others =>
          rw [restDone] at done
          rw [ih
            (fun other member => each other (List.mem_cons_of_mem _ member)) restDone]
          exact done

variable {term : Node}

theorem apply_mono {fuel answer} (done : apply ast subst fuel term = some answer) :
    apply ast subst (fuel + 1) term = some answer := by
  induction fuel generalizing term answer with
  | zero => cases done
  | succ fuel ih =>
    rw [apply] at done ⊢
    cases named : ast.variableName term with
    | some name =>
      simp only [named] at done ⊢
      cases found : subst.get name with
      | none => simpa only [found] using done
      | some bound =>
        simp only [found] at done ⊢
        cases boundDone : apply ast subst fuel bound with
        | none => rw [boundDone] at done; cases done
        | some next =>
          rw [boundDone] at done
          rw [ih boundDone]
          exact done
    | none =>
      simp only [named] at done ⊢
      split
      · rename_i childless
        rwa [if_pos childless] at done
      · rename_i nonempty
        rw [if_neg nonempty] at done
        cases kidsDone : applyAll (apply ast subst fuel) (ast.children term) with
        | none => rw [kidsDone] at done; cases done
        | some applied =>
          rw [kidsDone] at done
          rw [applyAll_mono (fun kid _ _ kidDone => ih kidDone) kidsDone]
          exact done

theorem apply_mono_of_le {fuel more} (larger : fuel ≤ more) {answer}
    (done : apply ast subst fuel term = some answer) : apply ast subst more term = some answer := by
  induction larger with
  | refl => exact done
  | step _ ih => exact apply_mono ih

/-! ### The value of a term -/

/-- With enough fuel, substituting through a term gives a value. -/
def Applies (ast : UnifierDialect Node Failure) (subst : Substitution Node) (term value : Node) :
    Prop := ∃ enough, ∀ fuel, enough ≤ fuel → apply ast subst fuel term = some (.ok value)

theorem applies_iff {value} :
    Applies ast subst term value ↔ ∃ fuel, apply ast subst fuel term = some (.ok value) := by
  constructor
  · rintro ⟨enough, done⟩
    exact ⟨enough, done enough le_rfl⟩
  · rintro ⟨fuel, done⟩
    exact ⟨fuel, fun more larger => apply_mono_of_le larger done⟩

theorem Applies.unique {first second} (one : Applies ast subst term first)
    (other : Applies ast subst term second) : first = second := by
  obtain ⟨enough, done⟩ := one
  obtain ⟨otherEnough, otherDone⟩ := other
  have same := (done (max enough otherEnough) (le_max_left _ _)).symm.trans
    (otherDone (max enough otherEnough) (le_max_right _ _))
  exact Except.ok.inj (Option.some.inj same)

omit [DecidableEq Node] in
theorem applyAll_ok_iff {step : Node → Option (Except Failure Node)} {kids values} :
    applyAll step kids = some (.ok values) ↔
      List.Forall₂ (fun kid value => step kid = some (.ok value)) kids values := by
  induction kids generalizing values with
  | nil =>
    rw [List.forall₂_nil_left_iff]
    constructor
    · intro done
      exact (Except.ok.inj (Option.some.inj done)).symm
    · rintro rfl
      rfl
  | cons kid rest ih =>
    rw [applyAll]
    constructor
    · intro done
      cases kidDone : step kid with
      | none => rw [kidDone] at done; cases done
      | some kidAnswer =>
        cases kidAnswer with
        | error error => rw [kidDone] at done; cases done
        | ok next =>
          simp only [kidDone] at done
          cases restDone : applyAll step rest with
          | none => rw [restDone] at done; cases done
          | some restAnswer =>
            cases restAnswer with
            | error error => rw [restDone] at done; cases done
            | ok others =>
              rw [restDone] at done
              rw [← Except.ok.inj (Option.some.inj done)]
              exact .cons kidDone (ih.mp restDone)
    · intro each
      cases each with
      | cons kidDone restDone => simp only [kidDone, ih.mpr restDone]

section Rules

variable {term : Node}

theorem Applies.unbound {name} (named : ast.variableName term = some name)
    (free : subst.get name = none) : Applies ast subst term term :=
  applies_iff.mpr ⟨1, by simp only [apply, named, free]⟩

variable {value : Node}

theorem applies_bound_iff {name bound} (named : ast.variableName term = some name)
    (found : subst.get name = some bound) :
    Applies ast subst term value ↔
      ∃ next, Applies ast subst bound next ∧
        value = if ast.equal next term then term else next := by
  simp only [applies_iff]
  constructor
  · rintro ⟨fuel, done⟩
    cases fuel with
    | zero => cases done
    | succ fuel =>
      simp only [apply, named, found] at done
      split at done
      · rename_i next nextDone
        exact ⟨next, ⟨fuel, nextDone⟩, (Except.ok.inj (Option.some.inj done)).symm⟩
      · rename_i failed
        exact absurd done (failed value)
  · rintro ⟨next, ⟨fuel, done⟩, rfl⟩
    exact ⟨fuel + 1, by simp only [apply, named, found, done]⟩

theorem applies_childless_iff (plain : ast.variableName term = none)
    (childless : ast.children term = []) : Applies ast subst term value ↔ value = term := by
  rw [applies_iff]
  constructor
  · rintro ⟨fuel, done⟩
    cases fuel with
    | zero => cases done
    | succ fuel =>
      simp only [apply, plain, childless, List.length_nil, if_true] at done
      exact (Except.ok.inj (Option.some.inj done)).symm
  · rintro rfl
    exact ⟨1, by simp only [apply, plain, childless, List.length_nil, if_true]⟩

theorem forall₂_applies_iff {kids values} :
    List.Forall₂ (Applies ast subst) kids values ↔
      ∃ fuel, applyAll (apply ast subst fuel) kids = some (.ok values) := by
  constructor
  · intro each
    induction each with
    | nil => exact ⟨0, rfl⟩
    | cons kidApplies _ ih =>
      obtain ⟨enough, done⟩ := kidApplies
      obtain ⟨fuel, restDone⟩ := ih
      refine ⟨max enough fuel, applyAll_ok_iff.mpr (.cons (done _ (le_max_left _ _)) ?_)⟩
      exact (applyAll_ok_iff.mp restDone).imp
        fun _ _ kidDone => apply_mono_of_le (le_max_right _ _) kidDone
  · rintro ⟨fuel, done⟩
    exact (applyAll_ok_iff.mp done).imp fun _ _ kidDone => applies_iff.mpr ⟨fuel, kidDone⟩

theorem applies_children_iff (plain : ast.variableName term = none)
    (nonempty : ast.children term ≠ []) :
    Applies ast subst term value ↔
      ∃ values, List.Forall₂ (Applies ast subst) (ast.children term) values ∧
        (if values = ast.children term then .ok term else ast.rebuild term values) = .ok value := by
  have long : ¬ (ast.children term).length = 0 := fun none =>
    nonempty (List.length_eq_zero_iff.mp none)
  simp only [forall₂_applies_iff]
  rw [applies_iff]
  constructor
  · rintro ⟨fuel, done⟩
    cases fuel with
    | zero => cases done
    | succ fuel =>
      simp only [apply, plain, if_neg long] at done
      split at done
      · cases done
      · cases done
      · rename_i values kidsDone
        exact ⟨values, ⟨fuel, kidsDone⟩, Option.some.inj done⟩
  · rintro ⟨values, ⟨fuel, kidsDone⟩, rebuilt⟩
    exact ⟨fuel + 1, by simp only [apply, plain, if_neg long, kidsDone, rebuilt]⟩

end Rules

/-! ### Application reads its bindings through their values -/

theorem apply_congr {first second : Substitution Node} (same : first.SameBindings second)
    (fuel : Nat) : apply ast first fuel = apply ast second fuel := by
  induction fuel with
  | zero => rfl
  | succ fuel ih =>
    simp only [apply, ih, same _]

theorem Applies.congr {first second} (same : first.SameBindings second) {value}
    (applies : Applies ast first term value) : Applies ast second term value := by
  obtain ⟨enough, done⟩ := applies
  exact ⟨enough, fun fuel more => by rw [← apply_congr same, done fuel more]⟩

end Apply

end Senars.Unify
