/-
This file is the instantiation of a type scheme. Its quantified variables are bound to fresh ones
and the substitution is applied in full to its body, so a fresh variable that is quantified itself
is replaced in turn.

Each variable is bound to a fresh one of its own, so the variables make chains that no two of them
enter at one place. The body is renamed apart exactly where no chain leads from one variable of the
body to another or back.
-/

import Senars.Metta.TypeSubst

namespace Senars.Metta

open Library Relation

variable {Id : Type} [DecidableEq Id]

/-! ### Instantiation -/

structure TypeScheme (Id : Type) where
  vars : List Id
  type : MettaType Id

/-- A fresh variable for each quantified one, from the counter on. -/
def freshVars (fresh : ℕ ↪ Id) (counter : ℕ) (scheme : TypeScheme Id) : List (MettaType Id) :=
  (List.range' counter scheme.vars.length).map fun id => .typevar (fresh id)

/-- The quantified variables, each bound to a fresh one. Of a variable that is listed more than once
the last one counts. -/
def varSubst (fresh : ℕ ↪ Id) (counter : ℕ) (scheme : TypeScheme Id) : Subst Id :=
  .ofList (scheme.vars.zip (freshVars fresh counter scheme))

/-- The type of a scheme, with a substitution that binds nothing. -/
def instantiate (fresh : ℕ ↪ Id) (counter : ℕ) (scheme : TypeScheme Id) (fuel : ℕ) :
    Option (MettaType Id × Subst Id) :=
  (applyTypeSubst (varSubst fresh counter scheme) fuel scheme.type).map fun type => (type, .empty)

/-! ### Renaming -/

/-- The type with each variable replaced by another one. -/
def MettaType.rename (rename : Id → Id) : MettaType Id → MettaType Id
  | .typevar id => .typevar (rename id)
  | .typecon name => .typecon name
  | .typefun fromType toType => .typefun (fromType.rename rename) (toType.rename rename)

/-- A variable that is quantified or occurs in the body. -/
def TypeScheme.Mentions (scheme : TypeScheme Id) (id : Id) : Prop :=
  id ∈ scheme.vars ∨ id ∈ scheme.type.vars

/-- A type is the body of a scheme with its quantified variables renamed, no two of them to the same
one, to variables that the scheme does not mention. -/
def RenamesApart (scheme : TypeScheme Id) (type : MettaType Id) : Prop :=
  ∃ rename : Id → Id, Set.InjOn rename {id | id ∈ scheme.vars} ∧
    (∀ id ∈ scheme.vars, ¬ scheme.Mentions (rename id)) ∧
    type = scheme.type.rename fun id => if id ∈ scheme.vars then rename id else id

/-- The variable leads to the other one: it is bound to it, or to one that leads to it. -/
def LeadsTo (s : Subst Id) (id other : Id) : Prop := TransGen (StandsFor s) id other

section

variable {s : Subst Id} {t : MettaType Id}

theorem applies_rename_iff {rename} :
    Applies s t (t.rename rename) ↔
      ∀ id ∈ t.vars, Applies s (.typevar id) (.typevar (rename id)) := by
  induction t with
  | typevar id => simp [MettaType.vars, MettaType.rename]
  | typecon name => exact iff_of_true (.typecon name) (by simp [MettaType.vars])
  | typefun fromType toType renamesFrom renamesTo =>
    rw [MettaType.vars_typefun, Finset.forall_mem_union, ← renamesFrom, ← renamesTo]
    constructor
    · intro applies
      obtain ⟨fromValue, toValue, same, appliedFrom, appliedTo⟩ := applies_typefun_iff.mp applies
      cases same
      exact ⟨appliedFrom, appliedTo⟩
    · rintro ⟨appliedFrom, appliedTo⟩
      exact .typefun appliedFrom appliedTo

theorem exists_injOn_extension [Infinite Id] (rename : Id → Id) (old more apart : Finset Id)
    (injective : Set.InjOn rename old) (avoids : ∀ id ∈ old, rename id ∉ apart) :
    ∃ all : Id → Id, Set.InjOn all (old ∪ more : Finset Id) ∧
      (∀ id ∈ old ∪ more, all id ∉ apart) ∧ ∀ id ∈ old, all id = rename id := by
  induction more using Finset.induction_on with
  | empty =>
    rw [Finset.union_empty]
    exact ⟨rename, injective, avoids, fun _ _ => rfl⟩
  | insert new more _ ih =>
    obtain ⟨all, injectiveAll, avoidsAll, agrees⟩ := ih
    rw [Finset.union_insert]
    by_cases there : new ∈ old ∪ more
    · rw [Finset.insert_eq_of_mem there]
      exact ⟨all, injectiveAll, avoidsAll, agrees⟩
    obtain ⟨value, unused⟩ := Infinite.exists_notMem_finset (apart ∪ (old ∪ more).image all)
    rw [Finset.notMem_union] at unused
    obtain ⟨notApart, notImage⟩ := unused
    have others : ∀ id ∈ old ∪ more, Function.update all new value id = all id := by
      intro id member
      exact Function.update_of_ne (ne_of_mem_of_not_mem member there) _ _
    refine ⟨Function.update all new value, ?_, ?_, ?_⟩
    · rw [Finset.coe_insert, Set.injOn_insert (by simpa using there)]
      refine ⟨injectiveAll.congr fun id member => (others id member).symm, ?_⟩
      rintro ⟨id, member, same⟩
      rw [others id member, Function.update_self] at same
      exact notImage (Finset.mem_image.mpr ⟨id, member, same⟩)
    · intro id member
      rcases Finset.mem_insert.mp member with rfl | member
      · rwa [Function.update_self]
      · rw [others id member]
        exact avoidsAll id member
    · intro id member
      rw [others id (Finset.mem_union_left more member)]
      exact agrees id member

end

/-! ### Chains of variables -/

/-- Each variable that is bound is bound to a variable, and no two of them to the same one. -/
structure Chains (s : Subst Id) : Prop where
  toVar : ∀ id t, s.get id = some t → ∃ other, t = .typevar other
  apart : ∀ id other t, s.get id = some t → s.get other = some t → id = other

section

variable {s : Subst Id} {id other last : Id} {value : MettaType Id}

theorem Chains.standsFor_iff (chains : Chains s) :
    StandsFor s id other ↔ s.get id = some (.typevar other) := by
  constructor
  · rintro ⟨t, isBound, occurs⟩
    obtain ⟨only, rfl⟩ := chains.toVar id t isBound
    rwa [Finset.mem_singleton.mp occurs]
  · intro isBound
    exact ⟨_, isBound, Finset.mem_singleton_self other⟩

theorem Chains.leftUnique (chains : Chains s) : Relator.LeftUnique (StandsFor s) := by
  intro first second next one two
  exact chains.apart _ _ _ (chains.standsFor_iff.mp one) (chains.standsFor_iff.mp two)

theorem Chains.applies_iff (chains : Chains s) :
    Applies s (.typevar id) value ↔
      ∃ last, value = .typevar last ∧ ReflTransGen (StandsFor s) id last ∧ s.get last = none := by
  constructor
  · intro applies
    generalize isVar : MettaType.typevar id = t at applies
    induction applies generalizing id with
    | unbound free =>
      cases isVar
      exact ⟨_, rfl, .refl, free⟩
    | bound isBound _ ih =>
      cases isVar
      obtain ⟨next, rfl⟩ := chains.toVar _ _ isBound
      obtain ⟨last, isLast, path, free⟩ := ih rfl
      exact ⟨last, isLast, path.head (chains.standsFor_iff.mpr isBound), free⟩
    | typecon name => cases isVar
    | typefun => cases isVar
  · rintro ⟨last, rfl, path, free⟩
    induction path using ReflTransGen.head_induction_on with
    | refl => exact .unbound free
    | head step _ ih =>
      exact .bound (chains.standsFor_iff.mp step) ih

theorem Chains.not_leadsTo (chains : Chains s) (applies : Applies s (.typevar id) value) :
    ¬ LeadsTo s id id := by
  obtain ⟨last, -, path, free⟩ := chains.applies_iff.mp applies
  clear applies
  induction path using ReflTransGen.head_induction_on with
  | refl =>
    intro cycle
    obtain ⟨next, step, -⟩ := TransGen.head'_iff.mp cycle
    rw [chains.standsFor_iff, free] at step
    cases step
  | head step _ ih =>
    intro cycle
    obtain ⟨next, again, around⟩ := TransGen.head'_iff.mp cycle
    have same := (chains.standsFor_iff.mp again).symm.trans (chains.standsFor_iff.mp step)
    cases same
    exact ih (TransGen.tail' around step)

theorem Chains.exists_last (chains : Chains s) (none : ¬ LeadsTo s id id) :
    ∃ last, ReflTransGen (StandsFor s) id last ∧ s.get last = Option.none := by
  have leaves : ∀ first second, StandsFor s first second →
      first ∈ (s.entries.map Prod.fst).toFinset := by
    rintro first second ⟨subst, isBound, _⟩
    rw [List.mem_toFinset]
    exact List.mem_map_of_mem ((s.get_eq_some_iff first subst).mp isBound)
  have ends := acc_of_leftUnique chains.leftUnique _ leaves none
  clear none
  induction ends with
  | intro id _ ih =>
    cases isBound : s.get id with
    | none => exact ⟨id, .refl, isBound⟩
    | some t =>
      obtain ⟨next, rfl⟩ := chains.toVar id t isBound
      have step := chains.standsFor_iff.mpr isBound
      obtain ⟨last, path, free⟩ := ih next step
      exact ⟨last, path.head step, free⟩

theorem Chains.leadsTo_or_leadsTo (chains : Chains s) (different : id ≠ other)
    (path : ReflTransGen (StandsFor s) id last)
    (otherPath : ReflTransGen (StandsFor s) other last) :
    LeadsTo s id other ∨ LeadsTo s other id := by
  have rightUnique : Relator.RightUnique (Function.swap (StandsFor s)) :=
    fun _ _ _ one two => chains.leftUnique one two
  rcases ReflTransGen.total_of_right_unique rightUnique (reflTransGen_swap.mpr path)
    (reflTransGen_swap.mpr otherPath) with leads | leads
  · rcases reflTransGen_iff_eq_or_transGen.mp (reflTransGen_swap.mp leads) with same | leads
    · exact absurd same different
    · exact .inr leads
  · rcases reflTransGen_iff_eq_or_transGen.mp (reflTransGen_swap.mp leads) with same | leads
    · exact absurd same.symm different
    · exact .inl leads

end

/-! ### The chains of a scheme -/

section

variable (fresh : ℕ ↪ Id) (counter : ℕ) (scheme : TypeScheme Id)

omit [DecidableEq Id] in
theorem length_freshVars : (freshVars fresh counter scheme).length = scheme.vars.length := by
  rw [freshVars, List.length_map, List.length_range']

omit [DecidableEq Id] in
theorem nodup_freshVars : (freshVars fresh counter scheme).Nodup := by
  refine List.Nodup.map (fun first second same => ?_) List.nodup_range'
  exact fresh.injective (MettaType.typevar.inj same)

theorem varSubst_get_eq_none_iff {id} :
    (varSubst fresh counter scheme).get id = none ↔ id ∉ scheme.vars := by
  unfold varSubst OrderedMap.ofList
  rw [OrderedMap.get_setAll_eq_none_iff,
    List.map_fst_zip (length_freshVars fresh counter scheme).ge]
  exact and_iff_right (OrderedMap.get_empty id)

theorem mem_zip_of_varSubst {id t} (isBound : (varSubst fresh counter scheme).get id = some t) :
    (id, t) ∈ scheme.vars.zip (freshVars fresh counter scheme) := by
  rcases OrderedMap.of_get_setAll isBound with before | entry
  · cases before
  · exact entry

theorem chains_varSubst : Chains (varSubst fresh counter scheme) where
  toVar id t isBound := by
    obtain ⟨number, _, rfl⟩ :=
      List.mem_map.mp (List.of_mem_zip (mem_zip_of_varSubst fresh counter scheme isBound)).2
    exact ⟨fresh number, rfl⟩
  apart id other t isBound otherBound := by
    have distinct : ((scheme.vars.zip (freshVars fresh counter scheme)).map Prod.snd).Nodup := by
      rw [List.map_snd_zip (length_freshVars fresh counter scheme).le]
      exact nodup_freshVars fresh counter scheme
    have same := List.inj_on_of_nodup_map distinct
      (mem_zip_of_varSubst fresh counter scheme isBound)
      (mem_zip_of_varSubst fresh counter scheme otherBound) rfl
    exact congrArg Prod.fst same

theorem instantiate_settles_iff {type} :
    Settles (instantiate fresh counter scheme) (type, .empty) ↔
      Applies (varSubst fresh counter scheme) scheme.type type := by
  constructor
  · rintro ⟨enough, answers⟩
    obtain ⟨found, applied, same⟩ := Option.map_eq_some_iff.mp (answers enough le_rfl)
    cases same
    exact applies_of_applyTypeSubst applied
  · intro applies
    exact applies.settles.map fun type => (type, (OrderedMap.empty : Subst Id))

end

/-! ### Renaming apart -/

/-- No variable of the body leads to one of the body. -/
def TypeScheme.Apart (scheme : TypeScheme Id) (s : Subst Id) : Prop :=
  ∀ id ∈ scheme.type.vars, ∀ other ∈ scheme.type.vars, ¬ LeadsTo s id other

section

variable {s : Subst Id} {scheme : TypeScheme Id} {type : MettaType Id}

theorem Chains.apart_of_renames (chains : Chains s)
    (free : ∀ {id}, s.get id = none ↔ id ∉ scheme.vars) (applies : Applies s scheme.type type)
    (renames : RenamesApart scheme type) : scheme.Apart s := by
  obtain ⟨rename, injective, avoids, rfl⟩ := renames
  intro id occurs other occursOther leads
  have ends := applies_rename_iff.mp applies
  have quantified : id ∈ scheme.vars := by
    by_contra notQuantified
    obtain ⟨next, step, -⟩ := TransGen.head'_iff.mp leads
    rw [chains.standsFor_iff, free.mpr notQuantified] at step
    cases step
  obtain ⟨last, isLast, path, isFree⟩ := chains.applies_iff.mp (ends other occursOther)
  have sameEnd : Applies s (.typevar id) (.typevar last) :=
    chains.applies_iff.mpr ⟨last, rfl, leads.to_reflTransGen.trans path, isFree⟩
  have renamed := MettaType.typevar.inj ((ends id occurs).unique sameEnd)
  rw [← MettaType.typevar.inj isLast, if_pos quantified] at renamed
  split at renamed
  · next otherQuantified =>
    obtain rfl := injective quantified otherQuantified renamed
    exact chains.not_leadsTo sameEnd leads
  · exact avoids id quantified (.inr (renamed ▸ occursOther))

theorem Chains.exists_ends (chains : Chains s)
    (free : ∀ {id}, s.get id = none ↔ id ∉ scheme.vars) (apart : scheme.Apart s) :
    ∃ last : Id → Id,
      (∀ id ∈ scheme.type.vars, Applies s (.typevar id) (.typevar (last id))) ∧
      Set.InjOn last (scheme.type.vars : Finset Id) ∧
      ∀ id ∈ scheme.type.vars, id ∈ scheme.vars →
        last id ∉ scheme.vars.toFinset ∪ scheme.type.vars := by
  have hasLast : ∀ id, ∃ last, id ∈ scheme.type.vars →
      ReflTransGen (StandsFor s) id last ∧ s.get last = none := by
    intro id
    by_cases occurs : id ∈ scheme.type.vars
    · obtain ⟨last, isLast⟩ := chains.exists_last (apart id occurs id occurs)
      exact ⟨last, fun _ => isLast⟩
    · exact ⟨id, fun occurs' => absurd occurs' occurs⟩
  choose last isLast using hasLast
  refine ⟨last, fun id occurs => ?_, fun id occurs other occursOther same => ?_,
    fun id occurs quantified => ?_⟩
  · obtain ⟨path, isFree⟩ := isLast id occurs
    exact chains.applies_iff.mpr ⟨_, rfl, path, isFree⟩
  · by_contra different
    rcases chains.leadsTo_or_leadsTo different (isLast id occurs).1
      (same ▸ (isLast other occursOther).1) with leads | leads
    · exact apart id occurs other occursOther leads
    · exact apart other occursOther id occurs leads
  · obtain ⟨path, isFree⟩ := isLast id occurs
    rw [Finset.notMem_union, List.mem_toFinset]
    refine ⟨free.mp isFree, fun occursLast => ?_⟩
    rcases reflTransGen_iff_eq_or_transGen.mp path with same | leads
    · rw [same] at isFree
      exact free.mp isFree quantified
    · exact apart id occurs _ occursLast leads

theorem Chains.renames_of_apart [Infinite Id] (chains : Chains s)
    (free : ∀ {id}, s.get id = none ↔ id ∉ scheme.vars) (apart : scheme.Apart s) :
    ∃ type, Applies s scheme.type type ∧ RenamesApart scheme type := by
  obtain ⟨last, ends, injective, away⟩ := chains.exists_ends free apart
  let old := scheme.type.vars.filter (· ∈ scheme.vars)
  have injectiveOld : Set.InjOn last old :=
    injective.mono fun id member => (Finset.mem_filter.mp member).1
  have awayOld : ∀ id ∈ old, last id ∉ scheme.vars.toFinset ∪ scheme.type.vars :=
    fun id member => away id (Finset.mem_filter.mp member).1 (Finset.mem_filter.mp member).2
  -- The quantified variables that are not in the body are renamed along.
  obtain ⟨rename, injectiveAll, avoids, agrees⟩ :=
    exists_injOn_extension last old scheme.vars.toFinset _ injectiveOld awayOld
  have quantifies : ∀ {id}, id ∈ scheme.vars → id ∈ old ∪ scheme.vars.toFinset :=
    fun quantified => Finset.mem_union_right _ (List.mem_toFinset.mpr quantified)
  refine ⟨_, applies_rename_iff.mpr fun id occurs => ?_, rename, ?_, ?_, rfl⟩
  · split
    · next quantified =>
      rw [agrees id (Finset.mem_filter.mpr ⟨occurs, quantified⟩)]
      exact ends id occurs
    · next notQuantified => exact .unbound (free.mpr notQuantified)
  · exact injectiveAll.mono fun id quantified => quantifies quantified
  · intro id quantified mentions
    have new := avoids id (quantifies quantified)
    rw [Finset.notMem_union, List.mem_toFinset] at new
    exact mentions.elim new.1 new.2

end

/-- Instantiation ends with the body renamed apart exactly where no variable of the body leads to
one of the body. -/
theorem instantiate_renames_iff (fresh : ℕ ↪ Id) (counter : ℕ) (scheme : TypeScheme Id) :
    (∃ type, Settles (instantiate fresh counter scheme) (type, .empty) ∧
        RenamesApart scheme type) ↔
      ∀ id ∈ scheme.type.vars, ∀ other ∈ scheme.type.vars,
        ¬ LeadsTo (varSubst fresh counter scheme) id other := by
  have infinite : Infinite Id := Infinite.of_injective fresh fresh.injective
  have chains := chains_varSubst fresh counter scheme
  have free : ∀ {id}, (varSubst fresh counter scheme).get id = none ↔ id ∉ scheme.vars :=
    varSubst_get_eq_none_iff fresh counter scheme
  simp only [instantiate_settles_iff]
  constructor
  · rintro ⟨type, applies, renames⟩
    exact chains.apart_of_renames free applies renames
  · exact chains.renames_of_apart free

/-! ### A variable that is its own fresh one -/

/-- The scheme of `$0 → $0` for all `$0`. -/
def identityScheme : TypeScheme ℕ where
  vars := [0]
  type := .typefun (.typevar 0) (.typevar 0)

/-- At a counter of zero `$0` is bound to itself, and applying the substitution does not end. -/
theorem instantiate_endless : ¬ ∀ (counter : ℕ) (scheme : TypeScheme ℕ),
    ∃ type, Settles (instantiate (.refl ℕ) counter scheme) (type, .empty) ∧
      RenamesApart scheme type := by
  intro always
  obtain ⟨type, settles, -⟩ := always 0 identityScheme
  have applies := (instantiate_settles_iff (.refl ℕ) 0 identityScheme).mp settles
  obtain ⟨fromValue, toValue, -, appliedFrom, -⟩ := applies_typefun_iff.mp applies
  have chains := chains_varSubst (.refl ℕ) 0 identityScheme
  refine chains.not_leadsTo appliedFrom (.single (chains.standsFor_iff.mpr ?_))
  rfl

end Senars.Metta
