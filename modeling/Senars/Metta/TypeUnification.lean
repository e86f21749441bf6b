/-
This file is the unification of two types under a substitution. How an answer comes about is told
by a derivation, and everything about the answer is by induction on it: a variable that is bound
was free and does not occur in its type, so no cycle is made, and what solves the substitution and
makes the two types the same solves the answer.

Unification ends because each binding is of one of the variables of the two types and leaves fewer
of them free.
-/

import Mathlib.Data.Finset.Card
import Senars.Metta.TypeSubst

namespace Senars.Metta

open Library

variable {Id : Type} [DecidableEq Id]

/-! ### Unification -/

/-- The answer for two types with the substitution applied. -/
def unifyApplied
    (unify : MettaType Id → MettaType Id → Subst Id → Option (Option (Subst Id)))
    (fuel : ℕ) (u1 u2 : MettaType Id) (s : Subst Id) : Option (Option (Subst Id)) :=
  match u1, u2 with
  | .typevar id, u2 =>
    if u2 = .typevar id then some (some s)
    else (occursCheck id s fuel u2).map fun occurs =>
      if occurs then none else some (s.set id u2)
  | u1, .typevar id =>
    (occursCheck id s fuel u1).map fun occurs => if occurs then none else some (s.set id u1)
  | .typecon name, .typecon other => some (if name = other then some s else none)
  | .typefun from1 to1, .typefun from2 to2 =>
    (unify from1 from2 s).bind fun s2 =>
      match s2 with
      | some s2 => unify to1 to2 s2
      | none => some none
  | _, _ => some none

/-- The substitution that makes two types the same, or that there is none. -/
def unifyTypes : ℕ → MettaType Id → MettaType Id → Subst Id → Option (Option (Subst Id))
  | 0, _, _, _ => none
  | fuel + 1, t1, t2, s =>
    (applyTypeSubst s fuel t1).bind fun u1 =>
      (applyTypeSubst s fuel t2).bind fun u2 => unifyApplied (unifyTypes fuel) fuel u1 u2 s

/-! ### How an answer comes about -/

/-- Two types that no substitution makes the same, since they are put together differently. -/
def Clash : MettaType Id → MettaType Id → Prop
  | .typecon name, .typecon other => name ≠ other
  | .typecon _, .typefun _ _ => True
  | .typefun _ _, .typecon _ => True
  | _, _ => False

inductive Unifies : MettaType Id → MettaType Id → Subst Id → Option (Subst Id) → Prop
  | same {t1 t2 : MettaType Id} {s : Subst Id} {u : MettaType Id} (applied1 : Applies s t1 u)
      (applied2 : Applies s t2 u) : Unifies t1 t2 s (some s)
  | bindLeft {t1 t2 : MettaType Id} {s : Subst Id} {id : Id} {u : MettaType Id}
      (applied1 : Applies s t1 (.typevar id)) (applied2 : Applies s t2 u) (absent : id ∉ u.vars) :
      Unifies t1 t2 s (some (s.set id u))
  | bindRight {t1 t2 : MettaType Id} {s : Subst Id} {id : Id} {u : MettaType Id}
      (applied1 : Applies s t1 u) (applied2 : Applies s t2 (.typevar id)) (absent : id ∉ u.vars) :
      Unifies t1 t2 s (some (s.set id u))
  | occursLeft {t1 t2 : MettaType Id} {s : Subst Id} {id : Id} {u : MettaType Id}
      (applied1 : Applies s t1 (.typevar id)) (applied2 : Applies s t2 u)
      (different : u ≠ .typevar id) (occurs : id ∈ u.vars) : Unifies t1 t2 s none
  | occursRight {t1 t2 : MettaType Id} {s : Subst Id} {id : Id} {u : MettaType Id}
      (applied1 : Applies s t1 u) (applied2 : Applies s t2 (.typevar id))
      (different : u ≠ .typevar id) (occurs : id ∈ u.vars) : Unifies t1 t2 s none
  | clash {t1 t2 : MettaType Id} {s : Subst Id} {u1 u2 : MettaType Id}
      (applied1 : Applies s t1 u1) (applied2 : Applies s t2 u2) (clash : Clash u1 u2) :
      Unifies t1 t2 s none
  | fromFails {t1 t2 : MettaType Id} {s : Subst Id} {from1 to1 from2 to2 : MettaType Id}
      (applied1 : Applies s t1 (.typefun from1 to1)) (applied2 : Applies s t2 (.typefun from2 to2))
      (fails : Unifies from1 from2 s none) : Unifies t1 t2 s none
  | typefun {t1 t2 : MettaType Id} {s s2 : Subst Id} {from1 to1 from2 to2 : MettaType Id}
      {answer : Option (Subst Id)} (applied1 : Applies s t1 (.typefun from1 to1))
      (applied2 : Applies s t2 (.typefun from2 to2)) (unifiesFrom : Unifies from1 from2 s (some s2))
      (unifiesTo : Unifies to1 to2 s2 answer) : Unifies t1 t2 s answer

section

variable {s : Subst Id} {t1 t2 : MettaType Id} {answer : Option (Subst Id)}

theorem unifies_of_unifyTypes {fuel} (unified : unifyTypes fuel t1 t2 s = some answer) :
    Unifies t1 t2 s answer := by
  induction fuel generalizing t1 t2 s answer with
  | zero => cases unified
  | succ fuel ih =>
    obtain ⟨u1, applied1, rest⟩ := Option.bind_eq_some_iff.mp unified
    obtain ⟨u2, applied2, answered⟩ := Option.bind_eq_some_iff.mp rest
    replace applied1 := applies_of_applyTypeSubst applied1
    replace applied2 := applies_of_applyTypeSubst applied2
    unfold unifyApplied at answered
    split at answered
    · next id =>
      split at answered
      · next same =>
        cases answered
        exact .same applied1 (same ▸ applied2)
      · next different =>
        obtain ⟨occurs, checked, rfl⟩ := Option.map_eq_some_iff.mp answered
        have isOccurs := occursCheck_eq applied2.plain checked
        split
        · next isTrue =>
          rw [isTrue] at isOccurs
          exact .occursLeft applied1 applied2 different (of_decide_eq_true isOccurs.symm)
        · next isFalse =>
          rw [eq_false_of_ne_true isFalse] at isOccurs
          exact .bindLeft applied1 applied2 (of_decide_eq_false isOccurs.symm)
    · next id notVar =>
      obtain ⟨occurs, checked, rfl⟩ := Option.map_eq_some_iff.mp answered
      have isOccurs := occursCheck_eq applied1.plain checked
      split
      · next isTrue =>
        rw [isTrue] at isOccurs
        exact .occursRight applied1 applied2 (notVar _) (of_decide_eq_true isOccurs.symm)
      · next isFalse =>
        rw [eq_false_of_ne_true isFalse] at isOccurs
        exact .bindRight applied1 applied2 (of_decide_eq_false isOccurs.symm)
    · next name other =>
      cases answered
      split
      · next same =>
        subst same
        exact .same applied1 applied2
      · next different => exact .clash applied1 applied2 different
    · next from1 to1 from2 to2 =>
      obtain ⟨s2, unifiedFrom, rest⟩ := Option.bind_eq_some_iff.mp answered
      cases s2 with
      | none =>
        cases rest
        exact .fromFails applied1 applied2 (ih unifiedFrom)
      | some s2 =>
        exact .typefun applied1 applied2 (ih unifiedFrom)
          (ih rest)
    · next notLeft notRight notCons notFuns =>
      cases answered
      refine .clash applied1 applied2 ?_
      cases u1 with
      | typevar id => exact absurd rfl (notLeft id)
      | typecon name =>
        cases u2 with
        | typevar id => exact absurd rfl (notRight id)
        | typecon other => exact absurd rfl (notCons name other rfl)
        | typefun fromType toType => trivial
      | typefun fromType toType =>
        cases u2 with
        | typevar id => exact absurd rfl (notRight id)
        | typecon other => trivial
        | typefun from2 to2 => exact absurd rfl (notFuns fromType toType from2 to2 rfl)

end

/-! ### What an answer is -/

/-- The one substitution binds what the other one does, and maybe more. -/
def Extends (s r : Subst Id) : Prop := ∀ id subst, s.get id = some subst → r.get id = some subst

/-- Two types are the same under full application. -/
def Unified (s : Subst Id) (t1 t2 : MettaType Id) : Prop :=
  ∃ fuel value, applyTypeSubst s fuel t1 = some value ∧ applyTypeSubst s fuel t2 = some value

/-- Applying the one substitution first makes no difference to applying the other one. -/
def MoreGeneral (r other : Subst Id) : Prop :=
  ∀ t, ∃ middle, Applies r t middle ∧ ∀ value, Applies other middle value ↔ Applies other t value

/-- Under the one substitution, a variable of the other one stands for what it is bound to. -/
def Solves (other s : Subst Id) : Prop :=
  ∀ id subst, s.get id = some subst → ∀ value,
    Applies other (.typevar id) value ↔ Applies other subst value

section

variable {s r other : Subst Id} {t t1 t2 : MettaType Id} {answer : Option (Subst Id)}

theorem unified_iff : Unified s t1 t2 ↔ ∃ value, Applies s t1 value ∧ Applies s t2 value := by
  constructor
  · rintro ⟨fuel, value, applied1, applied2⟩
    exact ⟨value, applies_of_applyTypeSubst applied1, applies_of_applyTypeSubst applied2⟩
  · rintro ⟨value, applied1, applied2⟩
    obtain ⟨enough1, answers1⟩ := applied1.settles
    obtain ⟨enough2, answers2⟩ := applied2.settles
    exact ⟨max enough1 enough2, value, answers1 _ (Nat.le_max_left _ _),
      answers2 _ (Nat.le_max_right _ _)⟩

theorem Extends.refl : Extends s s := fun _ _ isBound => isBound

theorem Extends.trans {last : Subst Id} (first : Extends s r) (later : Extends r last) :
    Extends s last := fun id subst isBound => later id subst (first id subst isBound)

theorem Extends.set {id : Id} (free : s.get id = none) (t : MettaType Id) :
    Extends s (s.set id t) := by
  intro boundId subst isBound
  rw [OrderedMap.get_set_of_ne, isBound]
  rintro rfl
  rw [free] at isBound
  cases isBound

theorem Extends.solves (larger : Extends s other) : Solves other s :=
  fun id subst isBound _ => applies_bound_iff (larger id subst isBound)

theorem Solves.of_extends (solves : Solves other r) (larger : Extends s r) : Solves other s :=
  fun id subst isBound => solves id subst (larger id subst isBound)

theorem Solves.set {id : Id} (solves : Solves other s)
    (same : ∀ value, Applies other (.typevar id) value ↔ Applies other t value) :
    Solves other (s.set id t) := by
  intro boundId subst isBound
  rw [OrderedMap.get_set] at isBound
  split at isBound
  · next isId =>
    cases isBound
    exact isId ▸ same
  · exact solves boundId subst isBound

variable {value : MettaType Id}

theorem Solves.applies_iff (solves : Solves other s) {middle} (applies : Applies s t middle) :
    Applies other t value ↔ Applies other middle value := by
  induction applies generalizing value with
  | unbound free => rfl
  | bound isBound _ ih =>
    exact (solves _ _ isBound value).trans ih
  | typecon name => rfl
  | typefun _ _ sameFrom sameTo =>
    rw [applies_typefun_iff, applies_typefun_iff]
    simp only [sameFrom, sameTo]

theorem Applies.factor (larger : Extends s r) (applies : Applies r t value) :
    ∃ middle, Applies s t middle ∧ Applies r middle value := by
  induction applies with
  | @unbound id free =>
    cases isBound : s.get id with
    | none => exact ⟨_, .unbound isBound, .unbound free⟩
    | some subst =>
      rw [larger id subst isBound] at free
      cases free
  | @bound id subst value isBound applied ih =>
    cases isBoundBefore : s.get id with
    | none => exact ⟨_, .unbound isBoundBefore, .bound isBound applied⟩
    | some before =>
      cases (larger id before isBoundBefore).symm.trans isBound
      obtain ⟨middle, appliedBefore, rest⟩ := ih
      exact ⟨middle, .bound isBoundBefore appliedBefore, rest⟩
  | typecon name => exact ⟨_, .typecon name, .typecon name⟩
  | typefun _ _ factorFrom factorTo =>
    obtain ⟨fromMiddle, appliedFrom, restFrom⟩ := factorFrom
    obtain ⟨toMiddle, appliedTo, restTo⟩ := factorTo
    exact ⟨_, .typefun appliedFrom appliedTo, .typefun restFrom restTo⟩

theorem not_same_of_occurs {id} (different : t ≠ .typevar id) (occurs : id ∈ t.vars)
    (applied : Applies s (.typevar id) value) : ¬ Applies s t value := by
  intro whole
  obtain ⟨part, isPart, _, less⟩ := whole.exists_part occurs
  rw [isPart.unique applied] at less
  exact lt_irrefl _ (less different)

theorem not_same_of_clash (clash : Clash t1 t2) (applied : Applies s t1 value) :
    ¬ Applies s t2 value := by
  intro again
  cases applied with
  | unbound free => exact clash
  | bound isBound applied => exact clash
  | typecon name =>
    cases again with
    | bound isBound applied => exact clash
    | typecon other => exact clash rfl
  | typefun appliedFrom appliedTo =>
    cases again with
    | bound isBound applied => exact clash
    | typefun _ _ => exact clash

theorem Unifies.exists_applied (unifies : Unifies t1 t2 s answer) :
    ∃ u1 u2, Applies s t1 u1 ∧ Applies s t2 u2 := by
  cases unifies with
  | same applied1 applied2 | bindLeft applied1 applied2 | bindRight applied1 applied2
  | occursLeft applied1 applied2 | occursRight applied1 applied2 | clash applied1 applied2
  | fromFails applied1 applied2 | typefun applied1 applied2 => exact ⟨_, _, applied1, applied2⟩

theorem Unifies.extends (unifies : Unifies t1 t2 s answer) : ∀ r ∈ answer, Extends s r := by
  have free : ∀ {s : Subst Id} {t : MettaType Id} {id : Id}, Applies s t (.typevar id) →
      s.get id = none := fun applied => applied.plain _ (Finset.mem_singleton_self _)
  induction unifies with
  | same => rintro _ ⟨⟩; exact .refl
  | bindLeft applied1 => rintro _ ⟨⟩; exact .set (free applied1) _
  | bindRight _ applied2 => rintro _ ⟨⟩; exact .set (free applied2) _
  | occursLeft | occursRight | clash | fromFails => rintro _ ⟨⟩
  | typefun _ _ _ _ extendsFrom extendsTo =>
    exact fun r isAnswer => (extendsFrom _ rfl).trans (extendsTo r isAnswer)

theorem Unifies.acyclic (unifies : Unifies t1 t2 s answer) (acyclic : AcyclicSubst s) :
    ∀ r ∈ answer, AcyclicSubst r := by
  induction unifies with
  | same => rintro _ ⟨⟩; exact acyclic
  | bindLeft _ applied2 absent => rintro _ ⟨⟩; exact acyclic.set applied2.plain absent
  | bindRight applied1 _ absent => rintro _ ⟨⟩; exact acyclic.set applied1.plain absent
  | occursLeft | occursRight | clash | fromFails => rintro _ ⟨⟩
  | typefun _ _ _ _ acyclicFrom acyclicTo => exact acyclicTo (acyclicFrom acyclic _ rfl)

theorem Unifies.applies_iff (unifies : Unifies t1 t2 s answer) :
    ∀ r ∈ answer, Solves other r → ∀ value, Applies other t1 value ↔ Applies other t2 value := by
  have larger := unifies.extends
  induction unifies with
  | same applied1 applied2 =>
    rintro _ ⟨⟩ solves value
    rw [solves.applies_iff applied1, solves.applies_iff applied2]
  | @bindLeft _ _ s id u applied1 applied2 =>
    rintro _ ⟨⟩ solves value
    have solvesOld := solves.of_extends (larger _ rfl)
    rw [solvesOld.applies_iff applied1, solvesOld.applies_iff applied2]
    exact solves id u (OrderedMap.get_set_self s id u) value
  | @bindRight _ _ s id u applied1 applied2 =>
    rintro _ ⟨⟩ solves value
    have solvesOld := solves.of_extends (larger _ rfl)
    rw [solvesOld.applies_iff applied1, solvesOld.applies_iff applied2]
    exact (solves id u (OrderedMap.get_set_self s id u) value).symm
  | occursLeft | occursRight | clash | fromFails => rintro _ ⟨⟩
  | typefun applied1 applied2 unifiesFrom unifiesTo sameFrom sameTo =>
    intro r isAnswer solves value
    have solvesOld := solves.of_extends (larger r isAnswer)
    have solvesFrom := solves.of_extends (unifiesTo.extends r isAnswer)
    rw [solvesOld.applies_iff applied1, solvesOld.applies_iff applied2, applies_typefun_iff,
      applies_typefun_iff]
    simp only [sameFrom unifiesFrom.extends _ rfl solvesFrom,
      sameTo unifiesTo.extends r isAnswer solves]

/-- For the types of which the one substitution binds nothing, applying the later one first makes no
difference to the other one. -/
def Absorbs (other s r : Subst Id) : Prop :=
  ∀ t, Plain s t → ∀ middle, Applies r t middle → ∀ value,
    Applies other t value ↔ Applies other middle value

theorem Absorbs.trans {middle} (early : Absorbs other s middle) (late : Absorbs other middle r)
    (larger : Extends middle r) : Absorbs other s r := by
  intro t plain last applies value
  obtain ⟨between, applied, rest⟩ := applies.factor larger
  rw [early t plain between applied, late between applied.plain last rest]

theorem absorbs_set {id u} (plain : Plain s u) (isVar : Applies other (.typevar id) value)
    (isType : Applies other u value) : Absorbs other s (s.set id u) := by
  have same : ∀ value, Applies other (.typevar id) value ↔ Applies other u value := by
    intro found
    constructor
    · intro again
      exact again.unique isVar ▸ isType
    · intro again
      exact again.unique isType ▸ isVar
  intro t plainType middle applies
  induction applies with
  | unbound free => exact fun _ => .rfl
  | @bound own subst last isBound _ ih =>
    have ownFree := plainType own (Finset.mem_singleton_self own)
    rw [OrderedMap.get_set] at isBound
    split at isBound
    · next isId =>
      cases isBound
      intro value
      rw [isId, same, ih plain]
    · rw [ownFree] at isBound
      cases isBound
  | typecon name => exact fun _ => .rfl
  | typefun _ _ sameFrom sameTo =>
    obtain ⟨plainFrom, plainTo⟩ := plain_typefun_iff.mp plainType
    intro value
    rw [applies_typefun_iff, applies_typefun_iff]
    simp only [sameFrom plainFrom, sameTo plainTo]

theorem Unifies.absorbs (unifies : Unifies t1 t2 s answer) {u1 u2} (applies1 : Applies s t1 u1)
    (applies2 : Applies s t2 u2) (isFirst : Applies other u1 value)
    (isSecond : Applies other u2 value) : ∀ r ∈ answer, Absorbs other s r := by
  induction unifies generalizing u1 u2 value with
  | same =>
    rintro _ ⟨⟩ t plain middle applies
    obtain rfl := applies.unique plain.applies
    exact fun _ => .rfl
  | bindLeft applied1 applied2 =>
    rintro _ ⟨⟩
    obtain rfl := applies1.unique applied1
    obtain rfl := applies2.unique applied2
    exact absorbs_set applied2.plain isFirst isSecond
  | bindRight applied1 applied2 =>
    rintro _ ⟨⟩
    obtain rfl := applies1.unique applied1
    obtain rfl := applies2.unique applied2
    exact absorbs_set applied1.plain isSecond isFirst
  | occursLeft | occursRight | clash | fromFails => rintro _ ⟨⟩
  | typefun applied1 applied2 unifiesFrom unifiesTo absorbsFrom absorbsTo =>
    intro r isAnswer
    obtain rfl := applies1.unique applied1
    obtain rfl := applies2.unique applied2
    obtain ⟨plainFrom1, plainTo1⟩ := plain_typefun_iff.mp applied1.plain
    obtain ⟨plainFrom2, plainTo2⟩ := plain_typefun_iff.mp applied2.plain
    obtain ⟨fromValue, toValue, rfl, isFrom1, isTo1⟩ := applies_typefun_iff.mp isFirst
    obtain ⟨_, _, ⟨⟩, isFrom2, isTo2⟩ := applies_typefun_iff.mp isSecond
    have early := absorbsFrom plainFrom1.applies plainFrom2.applies isFrom1 isFrom2 _ rfl
    obtain ⟨w1, w2, appliesTo1, appliesTo2⟩ := unifiesTo.exists_applied
    rw [early _ plainTo1 w1 appliesTo1] at isTo1
    rw [early _ plainTo2 w2 appliesTo2] at isTo2
    have late := absorbsTo appliesTo1 appliesTo2 isTo1 isTo2 r isAnswer
    exact early.trans late (unifiesTo.extends r isAnswer)

theorem Unifies.exists_solves (unifies : Unifies t1 t2 s answer) (solves : Solves other s)
    (same : ∃ value, Applies other t1 value ∧ Applies other t2 value) :
    ∃ r ∈ answer, Solves other r := by
  induction unifies with
  | same => exact ⟨_, rfl, solves⟩
  | bindLeft applied1 applied2 =>
    obtain ⟨value, isFirst, isSecond⟩ := same
    rw [solves.applies_iff applied1] at isFirst
    rw [solves.applies_iff applied2] at isSecond
    refine ⟨_, rfl, solves.set fun other => ⟨fun isOther => ?_, fun isOther => ?_⟩⟩
    · exact isOther.unique isFirst ▸ isSecond
    · exact isOther.unique isSecond ▸ isFirst
  | bindRight applied1 applied2 =>
    obtain ⟨value, isFirst, isSecond⟩ := same
    rw [solves.applies_iff applied1] at isFirst
    rw [solves.applies_iff applied2] at isSecond
    refine ⟨_, rfl, solves.set fun other => ⟨fun isOther => ?_, fun isOther => ?_⟩⟩
    · exact isOther.unique isSecond ▸ isFirst
    · exact isOther.unique isFirst ▸ isSecond
  | occursLeft applied1 applied2 different occurs =>
    obtain ⟨value, isFirst, isSecond⟩ := same
    rw [solves.applies_iff applied1] at isFirst
    rw [solves.applies_iff applied2] at isSecond
    exact absurd isSecond (not_same_of_occurs different occurs isFirst)
  | occursRight applied1 applied2 different occurs =>
    obtain ⟨value, isFirst, isSecond⟩ := same
    rw [solves.applies_iff applied1] at isFirst
    rw [solves.applies_iff applied2] at isSecond
    exact absurd isFirst (not_same_of_occurs different occurs isSecond)
  | clash applied1 applied2 clash =>
    obtain ⟨value, isFirst, isSecond⟩ := same
    rw [solves.applies_iff applied1] at isFirst
    rw [solves.applies_iff applied2] at isSecond
    exact absurd isSecond (not_same_of_clash clash isFirst)
  | fromFails applied1 applied2 _ noneFrom =>
    obtain ⟨value, isFirst, isSecond⟩ := same
    rw [solves.applies_iff applied1] at isFirst
    rw [solves.applies_iff applied2] at isSecond
    obtain ⟨fromValue, toValue, rfl, isFrom1, isTo1⟩ := applies_typefun_iff.mp isFirst
    obtain ⟨_, _, ⟨⟩, isFrom2, isTo2⟩ := applies_typefun_iff.mp isSecond
    exact noneFrom solves ⟨fromValue, isFrom1, isFrom2⟩
  | typefun applied1 applied2 _ _ existsFrom existsTo =>
    obtain ⟨value, isFirst, isSecond⟩ := same
    rw [solves.applies_iff applied1] at isFirst
    rw [solves.applies_iff applied2] at isSecond
    obtain ⟨fromValue, toValue, rfl, isFrom1, isTo1⟩ := applies_typefun_iff.mp isFirst
    obtain ⟨_, _, ⟨⟩, isFrom2, isTo2⟩ := applies_typefun_iff.mp isSecond
    obtain ⟨s2, ⟨⟩, solves2⟩ := existsFrom solves ⟨fromValue, isFrom1, isFrom2⟩
    exact existsTo solves2 ⟨toValue, isTo1, isTo2⟩

end

/-! ### Unification ends -/

/-- What is left of a type with the substitution applied has only some variables. -/
def Within (ids : Finset Id) (s : Subst Id) (t : MettaType Id) : Prop :=
  ∃ u, Applies s t u ∧ u.vars ⊆ ids

section

variable {ids : Finset Id} {s : Subst Id} {t t1 t2 : MettaType Id} {answer : Option (Subst Id)}

theorem within_typefun_iff {fromType toType} :
    Within ids s (.typefun fromType toType) ↔ Within ids s fromType ∧ Within ids s toType := by
  constructor
  · rintro ⟨u, applied, inside⟩
    obtain ⟨fromValue, toValue, rfl, appliedFrom, appliedTo⟩ := applies_typefun_iff.mp applied
    rw [MettaType.vars_typefun, Finset.union_subset_iff] at inside
    exact ⟨⟨fromValue, appliedFrom, inside.1⟩, ⟨toValue, appliedTo, inside.2⟩⟩
  · rintro ⟨⟨fromValue, appliedFrom, insideFrom⟩, ⟨toValue, appliedTo, insideTo⟩⟩
    exact ⟨_, .typefun appliedFrom appliedTo, Finset.union_subset insideFrom insideTo⟩

theorem Within.set {id u} (within : Within ids s t) (plain : Plain s u) (absent : id ∉ u.vars)
    (free : s.get id = none) (inside : u.vars ⊆ ids) : Within ids (s.set id u) t := by
  obtain ⟨value, applied, small⟩ := within
  induction applied with
  | @unbound own ownFree =>
    by_cases same : own = id
    · subst same
      have plainAfter : Plain (s.set own u) u := by
        intro other occurs
        rw [OrderedMap.get_set_of_ne, plain other occurs]
        rintro rfl
        exact absent occurs
      exact ⟨u, .bound (OrderedMap.get_set_self s own u) plainAfter.applies, inside⟩
    · exact ⟨_, .unbound (by rw [OrderedMap.get_set_of_ne s same, ownFree]), small⟩
  | bound isBound _ ih =>
    obtain ⟨value, applied, insideValue⟩ := ih small
    exact ⟨value, .bound (Extends.set free u _ _ isBound) applied, insideValue⟩
  | typecon name => exact ⟨_, .typecon name, small⟩
  | typefun _ _ withinFrom withinTo =>
    rw [MettaType.vars_typefun, Finset.union_subset_iff] at small
    exact within_typefun_iff.mpr ⟨withinFrom small.1, withinTo small.2⟩

theorem Unifies.within (unifies : Unifies t1 t2 s answer) (within1 : Within ids s t1)
    (within2 : Within ids s t2) :
    ∀ r ∈ answer, (r = s ∨ ∃ id ∈ ids, r.get id ≠ none) ∧
      ∀ t, Within ids s t → Within ids r t := by
  have inside : ∀ {s : Subst Id} {t u : MettaType Id}, Within ids s t → Applies s t u →
      u.vars ⊆ ids := by
    rintro s t u ⟨value, applied, small⟩ again
    rwa [again.unique applied]
  have insideVar : ∀ {s : Subst Id} {t : MettaType Id} {id : Id}, Within ids s t →
      Applies s t (.typevar id) → s.get id = none ∧ id ∈ ids := fun within applied =>
    ⟨applied.plain _ (Finset.mem_singleton_self _),
      inside within applied (Finset.mem_singleton_self _)⟩
  have insideParts : ∀ {s : Subst Id} {t fromType toType : MettaType Id}, Within ids s t →
      Applies s t (.typefun fromType toType) → Within ids s fromType ∧ Within ids s toType :=
    fun within applied => within_typefun_iff.mp ⟨_, applied.plain.applies, inside within applied⟩
  have binds : ∀ (s : Subst Id) (id : Id) (u : MettaType Id), (s.set id u).get id ≠ none := by
    intro s id u
    rw [OrderedMap.get_set_self]
    exact Option.some_ne_none u
  induction unifies with
  | same => rintro _ ⟨⟩; exact ⟨.inl rfl, fun t within => within⟩
  | bindLeft applied1 applied2 absent =>
    rintro _ ⟨⟩
    obtain ⟨free, member⟩ := insideVar within1 applied1
    exact ⟨.inr ⟨_, member, binds _ _ _⟩, fun t within =>
      within.set applied2.plain absent free (inside within2 applied2)⟩
  | bindRight applied1 applied2 absent =>
    rintro _ ⟨⟩
    obtain ⟨free, member⟩ := insideVar within2 applied2
    exact ⟨.inr ⟨_, member, binds _ _ _⟩, fun t within =>
      within.set applied1.plain absent free (inside within1 applied1)⟩
  | occursLeft | occursRight | clash | fromFails => rintro _ ⟨⟩
  | typefun applied1 applied2 _ unifiesTo keepsFrom keepsTo =>
    intro r isAnswer
    obtain ⟨from1, to1⟩ := insideParts within1 applied1
    obtain ⟨from2, to2⟩ := insideParts within2 applied2
    obtain ⟨more, keeps⟩ := keepsFrom from1 from2 _ rfl
    obtain ⟨moreLater, keepsLater⟩ := keepsTo (keeps _ to1) (keeps _ to2) r isAnswer
    refine ⟨?_, fun t within => keepsLater t (keeps t within)⟩
    rcases moreLater with rfl | moreLater
    · exact more
    · exact .inr moreLater

theorem exists_settles (ids : Finset Id) (size : ℕ) (s : Subst Id) {t1 t2 u1 u2}
    (applied1 : Applies s t1 u1) (applied2 : Applies s t2 u2) (small : u1.size ≤ size)
    (inside1 : u1.vars ⊆ ids) (inside2 : u2.vars ⊆ ids) :
    ∃ answer, Settles (fun fuel => unifyTypes fuel t1 t2 s) answer := by
  induction ids using Finset.strongInduction generalizing size s t1 t2 u1 u2 with
  | H ids fewer =>
  induction size generalizing t1 t2 u1 u2 with
  | zero => cases u1 <;> exact absurd small (by simp [MettaType.size])
  | succ size smaller =>
  suffices settles : ∃ answer,
      Settles (fun fuel => unifyApplied (unifyTypes fuel) fuel u1 u2 s) answer by
    obtain ⟨answer, settles⟩ := settles
    exact ⟨answer, (applied1.settles.bind (applied2.settles.bind settles)).spend fun fuel => rfl⟩
  cases u1 with
  | typevar id =>
    by_cases same : u2 = .typevar id
    · refine ⟨some s, ?_⟩
      simp only [unifyApplied, if_pos same]
      exact settles_const _
    · simp only [unifyApplied, if_neg same]
      exact ⟨_, (occursCheck_settles id applied2.plain).map _⟩
  | typecon name =>
    cases u2 with
    | typevar id => exact ⟨_, (occursCheck_settles id applied1.plain).map _⟩
    | typecon other => exact ⟨_, settles_const _⟩
    | typefun fromType toType => exact ⟨_, settles_const _⟩
  | typefun from1 to1 =>
    cases u2 with
    | typevar id => exact ⟨_, (occursCheck_settles id applied1.plain).map _⟩
    | typecon other => exact ⟨_, settles_const _⟩
    | typefun from2 to2 =>
      obtain ⟨plainFrom1, plainTo1⟩ := plain_typefun_iff.mp applied1.plain
      obtain ⟨plainFrom2, plainTo2⟩ := plain_typefun_iff.mp applied2.plain
      rw [MettaType.vars_typefun, Finset.union_subset_iff] at inside1 inside2
      rw [MettaType.size] at small
      have smallFrom : from1.size ≤ size := by omega
      have smallTo : to1.size ≤ size := by omega
      obtain ⟨first, settlesFirst⟩ := smaller plainFrom1.applies plainFrom2.applies smallFrom
        inside1.1 inside2.1
      cases first with
      | none => exact ⟨none, settlesFirst.bind (settles_const _)⟩
      | some s2 =>
        suffices later : ∃ answer, Settles (fun fuel => unifyTypes fuel to1 to2 s2) answer by
          obtain ⟨answer, settlesLater⟩ := later
          exact ⟨answer, settlesFirst.bind settlesLater⟩
        obtain ⟨enough, answers⟩ := settlesFirst
        obtain ⟨more, keeps⟩ := (unifies_of_unifyTypes (answers enough le_rfl)).within
          ⟨from1, plainFrom1.applies, inside1.1⟩ ⟨from2, plainFrom2.applies, inside2.1⟩ s2 rfl
        rcases more with rfl | ⟨id, member, isBound⟩
        · exact smaller plainTo1.applies plainTo2.applies smallTo inside1.2 inside2.2
        · obtain ⟨left1, appliedLeft1, insideLeft1⟩ := keeps to1 ⟨to1, plainTo1.applies, inside1.2⟩
          obtain ⟨left2, appliedLeft2, insideLeft2⟩ := keeps to2 ⟨to2, plainTo2.applies, inside2.2⟩
          have free : ∀ {left : MettaType Id}, left.vars ⊆ ids → Plain s2 left →
              left.vars ⊆ ids.filter (s2.get · = none) := fun inside plain other occurs =>
            Finset.mem_filter.mpr ⟨inside occurs, plain other occurs⟩
          refine fewer _ ?_ left1.size s2 appliedLeft1 appliedLeft2 le_rfl
            (free insideLeft1 appliedLeft1.plain) (free insideLeft2 appliedLeft2.plain)
          exact Finset.filter_ssubset.mpr ⟨id, member, isBound⟩

end

/-! ### Unification is correct -/

/-- A substitution that makes two types the same, and is the most general of those that extend
another one and do. -/
structure MostGeneralUnifier (s : Subst Id) (t1 t2 : MettaType Id) (r : Subst Id) : Prop where
  acyclic : AcyclicSubst r
  larger : Extends s r
  unified : Unified r t1 t2
  general : ∀ other, Extends s other → Unified other t1 t2 → MoreGeneral r other

/-- Unification under a substitution without cycles ends, with the most general substitution that
extends it and makes the two types the same, or with none where none does. -/
theorem unifyTypes_correct (t1 t2 : MettaType Id) {s : Subst Id} (acyclic : AcyclicSubst s) :
    ∃ answer, Settles (fun fuel => unifyTypes fuel t1 t2 s) answer ∧
      (∀ r, answer = some r → MostGeneralUnifier s t1 t2 r) ∧
        (answer = none → ∀ other, Extends s other → ¬ Unified other t1 t2) := by
  obtain ⟨u1, applied1⟩ := acyclic.exists_applies t1
  obtain ⟨u2, applied2⟩ := acyclic.exists_applies t2
  obtain ⟨answer, settles⟩ := exists_settles (u1.vars ∪ u2.vars) u1.size s applied1 applied2 le_rfl
    Finset.subset_union_left Finset.subset_union_right
  obtain ⟨enough, answers⟩ := settles
  have unifies := unifies_of_unifyTypes (answers enough le_rfl)
  have solved : ∀ other, Extends s other → Unified other t1 t2 → ∃ r ∈ answer, Solves other r :=
    fun other larger unified => unifies.exists_solves larger.solves (unified_iff.mp unified)
  refine ⟨answer, ⟨enough, answers⟩, fun r isAnswer => ?_, fun isNone other larger unified => ?_⟩
  · have acyclicResult := unifies.acyclic acyclic r isAnswer
    refine ⟨acyclicResult, unifies.extends r isAnswer, ?_, fun other larger unified t => ?_⟩
    · obtain ⟨value, applied⟩ := acyclicResult.exists_applies t1
      have same := unifies.applies_iff r isAnswer Extends.refl.solves value
      exact unified_iff.mpr ⟨value, applied, same.mp applied⟩
    · obtain ⟨result, isResult, solves⟩ := solved other larger unified
      rw [Option.mem_def, isAnswer] at isResult
      cases isResult
      obtain ⟨middle, applied⟩ := acyclicResult.exists_applies t
      exact ⟨middle, applied, fun value => (solves.applies_iff applied).symm⟩
  · obtain ⟨result, isResult, _⟩ := solved other larger unified
    rw [Option.mem_def, isNone] at isResult
    cases isResult

theorem acyclicSubst_empty : AcyclicSubst (.empty : Subst Id) := by
  intro id cycle
  obtain ⟨next, ⟨subst, isBound, _⟩, _⟩ := Relation.TransGen.head'_iff.mp cycle
  cases isBound

/-- `$0 → Number` and `String → $1` under no bindings. -/
theorem unifyTypes_correct_typefun :
    ∃ answer, Settles (fun fuel => unifyTypes fuel (.typefun (.typevar 0) (.typecon "Number"))
        (.typefun (.typecon "String") (.typevar 1)) (.empty : Subst ℕ)) answer ∧
      (∀ r, answer = some r → MostGeneralUnifier .empty
        (.typefun (.typevar 0) (.typecon "Number"))
        (.typefun (.typecon "String") (.typevar 1)) r) ∧
      (answer = none → ∀ other : Subst ℕ, Extends .empty other →
        ¬ Unified other (.typefun (.typevar 0) (.typecon "Number"))
          (.typefun (.typecon "String") (.typevar 1))) :=
  unifyTypes_correct _ _ acyclicSubst_empty

end Senars.Metta
