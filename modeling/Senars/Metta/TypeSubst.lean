/-
This file is the types of MeTTa and the substitutions of their variables. A substitution is
applied in full: what a variable stands for has the substitution applied to it too. That ends
where no variable leads back to itself.

Applying a substitution is told twice, as the code does it and by how its result comes about.
-/

import Mathlib.Data.Finset.Lattice.Lemmas
import Senars.Library.Acyclic
import Senars.Library.Fuel
import Senars.Library.OrderedMap

namespace Senars.Metta

open Library Relation

/-- A type. The id of a variable is only compared with others. -/
inductive MettaType (Id : Type) where
  | typevar (id : Id)
  | typecon (name : String)
  | typefun (fromType toType : MettaType Id)
  deriving DecidableEq

abbrev Subst (Id : Type) := OrderedMap Id (MettaType Id)

variable {Id : Type} [DecidableEq Id]

/-! ### Applying a substitution -/

/-- The type with the substitution applied in full, none where the fuel runs out. -/
def applyTypeSubst (s : Subst Id) : ℕ → MettaType Id → Option (MettaType Id)
  | 0, _ => none
  | fuel + 1, .typevar id =>
    match s.get id with
    | some subst => applyTypeSubst s fuel subst
    | none => some (.typevar id)
  | _ + 1, .typecon name => some (.typecon name)
  | fuel + 1, .typefun fromType toType =>
    (applyTypeSubst s fuel fromType).bind fun fromType =>
      (applyTypeSubst s fuel toType).map fun toType => .typefun fromType toType

/-- How the result of applying a substitution comes about. -/
inductive Applies (s : Subst Id) : MettaType Id → MettaType Id → Prop
  | unbound {id : Id} (free : s.get id = none) : Applies s (.typevar id) (.typevar id)
  | bound {id : Id} {subst value : MettaType Id} (isBound : s.get id = some subst)
      (applied : Applies s subst value) : Applies s (.typevar id) value
  | typecon (name : String) : Applies s (.typecon name) (.typecon name)
  | typefun {fromType toType fromValue toValue : MettaType Id}
      (appliedFrom : Applies s fromType fromValue) (appliedTo : Applies s toType toValue) :
      Applies s (.typefun fromType toType) (.typefun fromValue toValue)

section

variable {s other : Subst Id} {id : Id} {t value : MettaType Id}

theorem applies_of_applyTypeSubst {fuel} (applied : applyTypeSubst s fuel t = some value) :
    Applies s t value := by
  induction fuel generalizing t value with
  | zero => cases applied
  | succ fuel ih =>
    cases t with
    | typevar id =>
      unfold applyTypeSubst at applied
      split at applied
      · next subst isBound => exact .bound isBound (ih applied)
      · next free =>
        cases applied
        exact .unbound free
    | typecon name =>
      cases applied
      exact .typecon name
    | typefun fromType toType =>
      obtain ⟨fromValue, appliedFrom, rest⟩ := Option.bind_eq_some_iff.mp applied
      obtain ⟨toValue, appliedTo, rfl⟩ := Option.map_eq_some_iff.mp rest
      exact .typefun (ih appliedFrom) (ih appliedTo)

theorem Applies.settles (applies : Applies s t value) :
    Settles (fun fuel => applyTypeSubst s fuel t) value := by
  induction applies with
  | unbound free =>
    refine (settles_const _).spend fun fuel => ?_
    rw [applyTypeSubst, free]
  | bound isBound _ ih =>
    refine ih.spend fun fuel => ?_
    rw [applyTypeSubst, isBound]
  | typecon name => exact (settles_const _).spend fun fuel => rfl
  | typefun _ _ settlesFrom settlesTo =>
    exact (settlesFrom.bind (settlesTo.map _)).spend fun fuel => rfl

theorem Applies.unique {first second} (applies : Applies s t first) (again : Applies s t second) :
    first = second :=
  applies.settles.unique again.settles

theorem applies_bound_iff {subst} (isBound : s.get id = some subst) :
    Applies s (.typevar id) value ↔ Applies s subst value := by
  refine ⟨fun applies => ?_, .bound isBound⟩
  cases applies with
  | unbound free =>
    rw [isBound] at free
    cases free
  | bound isBound' applied =>
    rw [isBound] at isBound'
    cases isBound'
    exact applied

theorem applies_typefun_iff {fromType toType} :
    Applies s (.typefun fromType toType) value ↔ ∃ fromValue toValue,
      value = .typefun fromValue toValue ∧ Applies s fromType fromValue ∧
        Applies s toType toValue := by
  constructor
  · rintro (_ | _ | _ | ⟨appliedFrom, appliedTo⟩)
    exact ⟨_, _, rfl, appliedFrom, appliedTo⟩
  · rintro ⟨fromValue, toValue, rfl, appliedFrom, appliedTo⟩
    exact .typefun appliedFrom appliedTo

end

/-! ### Variables -/

namespace MettaType

/-- The ids of the variables of a type. -/
def vars : MettaType Id → Finset Id
  | .typevar id => {id}
  | .typecon _ => ∅
  | .typefun fromType toType => fromType.vars ∪ toType.vars

def size : MettaType Id → ℕ
  | .typevar _ => 1
  | .typecon _ => 1
  | .typefun fromType toType => fromType.size + toType.size + 1

theorem vars_typefun (fromType toType : MettaType Id) :
    (typefun fromType toType).vars = fromType.vars ∪ toType.vars := rfl

end MettaType

/-- A type of which the substitution binds no variable. -/
def Plain (s : Subst Id) (t : MettaType Id) : Prop := ∀ id ∈ t.vars, s.get id = none

section

variable {s other : Subst Id} {id : Id} {t value : MettaType Id}

theorem plain_typefun_iff {fromType toType} :
    Plain s (.typefun fromType toType) ↔ Plain s fromType ∧ Plain s toType := by
  unfold Plain
  exact Finset.forall_mem_union

theorem Applies.plain (applies : Applies s t value) : Plain s value := by
  induction applies with
  | unbound free =>
    intro other member
    rwa [Finset.mem_singleton.mp member]
  | bound _ _ ih => exact ih
  | typecon name => exact fun other member => absurd member (Finset.notMem_empty other)
  | typefun _ _ plainFrom plainTo => exact plain_typefun_iff.mpr ⟨plainFrom, plainTo⟩

theorem Plain.applies (plain : Plain s t) : Applies s t t := by
  induction t with
  | typevar id => exact .unbound (plain id (Finset.mem_singleton_self id))
  | typecon name => exact .typecon name
  | typefun fromType toType appliesFrom appliesTo =>
    obtain ⟨plainFrom, plainTo⟩ := plain_typefun_iff.mp plain
    exact .typefun (appliesFrom plainFrom) (appliesTo plainTo)

theorem Applies.exists_part (applies : Applies s t value) (occurs : id ∈ t.vars) :
    ∃ part, Applies s (.typevar id) part ∧ part.size ≤ value.size ∧
      (t ≠ .typevar id → part.size < value.size) := by
  induction t generalizing value with
  | typevar own =>
    obtain rfl := Finset.mem_singleton.mp occurs
    exact ⟨value, applies, le_rfl, fun different => absurd rfl different⟩
  | typecon name => exact absurd occurs (Finset.notMem_empty id)
  | typefun fromType toType inFrom inTo =>
    obtain ⟨fromValue, toValue, rfl, appliedFrom, appliedTo⟩ := applies_typefun_iff.mp applies
    rcases Finset.mem_union.mp occurs with occursFrom | occursTo
    · obtain ⟨part, isPart, small, _⟩ := inFrom appliedFrom occursFrom
      have less : part.size < (MettaType.typefun fromValue toValue).size := by
        rw [MettaType.size]
        omega
      exact ⟨part, isPart, less.le, fun _ => less⟩
    · obtain ⟨part, isPart, small, _⟩ := inTo appliedTo occursTo
      have less : part.size < (MettaType.typefun fromValue toValue).size := by
        rw [MettaType.size]
        omega
      exact ⟨part, isPart, less.le, fun _ => less⟩

end

/-! ### Substitutions without cycles -/

/-- One variable stands for a type in which the other occurs. -/
def StandsFor (s : Subst Id) (id other : Id) : Prop :=
  ∃ subst, s.get id = some subst ∧ other ∈ subst.vars

/-- No variable leads back to itself. -/
def AcyclicSubst (s : Subst Id) : Prop := Acyclic (StandsFor s)

section

variable {s : Subst Id}

theorem applies_of_vars {t} (each : ∀ id ∈ t.vars, ∃ value, Applies s (.typevar id) value) :
    ∃ value, Applies s t value := by
  induction t with
  | typevar id => exact each id (Finset.mem_singleton_self id)
  | typecon name => exact ⟨_, .typecon name⟩
  | typefun fromType toType existsFrom existsTo =>
    obtain ⟨eachFrom, eachTo⟩ := Finset.forall_mem_union.mp each
    obtain ⟨fromValue, appliedFrom⟩ := existsFrom eachFrom
    obtain ⟨toValue, appliedTo⟩ := existsTo eachTo
    exact ⟨_, .typefun appliedFrom appliedTo⟩

theorem AcyclicSubst.exists_applies (acyclic : AcyclicSubst s) (t : MettaType Id) :
    ∃ value, Applies s t value := by
  have leaves : ∀ first second, StandsFor s first second →
      first ∈ (s.entries.map Prod.fst).toFinset := by
    rintro first second ⟨subst, isBound, _⟩
    rw [List.mem_toFinset]
    exact List.mem_map_of_mem ((s.get_eq_some_iff first subst).mp isBound)
  have wellFounded := acyclic.wellFounded _ leaves
  have each : ∀ id, ∃ value, Applies s (.typevar id) value := by
    intro id
    induction id using wellFounded.induction with
    | _ id ih =>
      cases isBound : s.get id with
      | none => exact ⟨_, .unbound isBound⟩
      | some subst =>
        obtain ⟨value, applied⟩ := applies_of_vars fun other occurs =>
          ih other ⟨subst, isBound, occurs⟩
        exact ⟨value, .bound isBound applied⟩
  exact applies_of_vars fun id _ => each id

theorem AcyclicSubst.set (acyclic : AcyclicSubst s) {id t} (plain : Plain s t)
    (absent : id ∉ t.vars) : AcyclicSubst (s.set id t) := by
  have step : ∀ first second, StandsFor (s.set id t) first second →
      StandsFor s first second ∨ first = id ∧ second ∈ t.vars := by
    rintro first second ⟨subst, isBound, occurs⟩
    rw [OrderedMap.get_set] at isBound
    split at isBound
    · next same =>
      cases isBound
      exact .inr ⟨same, occurs⟩
    · exact .inl ⟨subst, isBound, occurs⟩
  refine Acyclic.redirect acyclic step fun node occurs path => ?_
  rcases path.cases_head with same | ⟨next, ⟨subst, isBound, _⟩, _⟩
  · exact absent (same ▸ occurs)
  · rw [plain node occurs] at isBound
    cases isBound

end

/-! ### The occurs check -/

/-- Whether a variable occurs in a type with the substitution applied in full. -/
def occursCheck (id : Id) (s : Subst Id) : ℕ → MettaType Id → Option Bool
  | 0, _ => none
  | fuel + 1, t =>
    (applyTypeSubst s fuel t).bind fun expanded =>
      match expanded with
      | .typevar other => some (other = id)
      | .typecon _ => some false
      | .typefun fromType toType =>
        (occursCheck id s fuel fromType).bind fun occurs =>
          if occurs then some true else occursCheck id s fuel toType

section

variable {s : Subst Id} {id : Id} {t : MettaType Id}

theorem occursCheck_settles (id : Id) (plain : Plain s t) :
    Settles (fun fuel => occursCheck id s fuel t) (decide (id ∈ t.vars)) := by
  induction t with
  | typevar other =>
    have same : decide (id ∈ (MettaType.typevar other).vars) = decide (other = id) := by
      rw [decide_eq_decide, MettaType.vars, Finset.mem_singleton, eq_comm]
    rw [same]
    exact (plain.applies.settles.bind (settles_const _)).spend fun fuel => rfl
  | typecon name => exact (plain.applies.settles.bind (settles_const _)).spend fun fuel => rfl
  | typefun fromType toType settlesFrom settlesTo =>
    obtain ⟨plainFrom, plainTo⟩ := plain_typefun_iff.mp plain
    refine (plain.applies.settles.bind ((settlesFrom plainFrom).bind ?_)).spend fun fuel => rfl
    rw [MettaType.vars_typefun]
    by_cases occurs : id ∈ fromType.vars
    · simp only [occurs, Finset.mem_union, true_or, decide_true, if_true]
      exact settles_const true
    · simp only [occurs, Finset.mem_union, false_or, decide_false, Bool.false_eq_true, if_false]
      exact settlesTo plainTo

theorem occursCheck_eq (plain : Plain s t) {fuel occurs}
    (checked : occursCheck id s fuel t = some occurs) : occurs = decide (id ∈ t.vars) := by
  induction fuel generalizing t occurs with
  | zero => cases checked
  | succ fuel ih =>
    obtain ⟨expanded, applied, rest⟩ := Option.bind_eq_some_iff.mp checked
    obtain rfl := (applies_of_applyTypeSubst applied).unique plain.applies
    cases expanded with
    | typevar other =>
      cases rest
      rw [decide_eq_decide, MettaType.vars, Finset.mem_singleton, eq_comm]
    | typecon name =>
      cases rest
      rfl
    | typefun fromType toType =>
      obtain ⟨plainFrom, plainTo⟩ := plain_typefun_iff.mp plain
      obtain ⟨occursFrom, checkedFrom, last⟩ := Option.bind_eq_some_iff.mp rest
      obtain rfl := ih plainFrom checkedFrom
      rw [MettaType.vars_typefun]
      split at last
      · next isTrue =>
        cases last
        simp [of_decide_eq_true isTrue]
      · next isFalse =>
        have isTo := ih plainTo last
        have notFrom : id ∉ fromType.vars := mt decide_eq_true isFalse
        simp [isTo, notFrom]

end

end Senars.Metta
