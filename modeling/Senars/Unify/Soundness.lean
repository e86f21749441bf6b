/-
This file proves that the answer of a unifier makes its two nodes one, for any
dialect that keeps the laws, and says when.

Besides the depth caps and the memo, which have files of their own, two things go
wrong in a walk. A variable bound to a value that masks it stays in place. And
the walk pairs the children of two nodes by their heads alone, so nodes that are
rebuilt differently can be paired. At every visited pair that avoids both, the
two nodes have one value under the final bindings, by induction on the walk. For
a dialect whose rebuilding hides nothing the converse holds too, by induction
from the whole to the parts.
-/

import Senars.Unify.Masking

namespace Senars.Unify

open Library

section Soundness

variable {Node Failure : Type} {ast : UnifierDialect Node Failure}
  {identical : Node → Node → Bool} {Good : Node → Prop} {masks : Node → Bool} {size : Node → Nat}
  [DecidableEq Node] {final : Substitution Node} {occursCheck : Bool}

/-- Two nodes have one value under some bindings. -/
def Unified (ast : UnifierDialect Node Failure) (subst : Substitution Node) (a b : Node) : Prop :=
  ∃ value, Applies ast subst a value ∧ Applies ast subst b value

theorem Unified.congr {first second} (same : first.SameBindings second) {a b}
    (unified : Unified ast first a b) : Unified ast second a b := by
  obtain ⟨value, left, right⟩ := unified
  exact ⟨value, left.congr same, right.congr same⟩

/-! ### From the pairs to the whole -/

theorem unified_of_children (lawful : LawfulDialect ast Good masks size) {left right}
    (leftGood : Good left) (rightGood : Good right) (paired : Paired ast left right)
    (nonempty : ast.children left ≠ [])
    (heads : ∀ kids, ast.rebuild left kids = ast.rebuild right kids) {values}
    (valuesGood : ∀ value ∈ values, Good value)
    (leftKids : List.Forall₂ (Applies ast final) (ast.children left) values)
    (rightKids : List.Forall₂ (Applies ast final) (ast.children right) values) :
    Unified ast final left right := by
  have rightNonempty : ast.children right ≠ [] := fun none =>
    nonempty (List.length_eq_zero_iff.mp (by rw [paired.length, none, List.length_nil]))
  obtain ⟨value, rebuilt, -⟩ :=
    lawful.rebuilds left values leftGood valuesGood nonempty leftKids.length_eq.symm
  refine ⟨value, (applies_children_iff paired.leftPlain nonempty).mpr ⟨values, leftKids, ?_⟩,
    (applies_children_iff paired.rightPlain rightNonempty).mpr ⟨values, rightKids, ?_⟩⟩
  · split
    · rename_i same
      rw [← lawful.rebuildChildren left leftGood nonempty, ← same, rebuilt]
    · exact rebuilt
  · split
    · rename_i same
      rw [← lawful.rebuildChildren right rightGood rightNonempty, ← same, ← heads, rebuilt]
    · rw [← heads, rebuilt]

/-- Two lists of nodes have the same values, one by one. -/
def UnifiedLists (ast : UnifierDialect Node Failure) (subst : Substitution Node)
    (lefts rights : List Node) : Prop :=
  ∃ values, List.Forall₂ (Applies ast subst) lefts values ∧
    List.Forall₂ (Applies ast subst) rights values

variable {remaining : Nat} {result : Walk Node}

theorem pairs_unified (each : ∀ a b walk result, Good a → Good b →
      (∀ visit ∈ visits ast identical occursCheck remaining a b walk,
        visit.Resolved ast ∧ Agrees ast identical masks visit) →
      result.work.Extends final →
      descend ast identical occursCheck remaining a b walk = some result → Unified ast final a b)
    {lefts rights walk} (length : lefts.length = rights.length)
    (leftsGood : ∀ node ∈ lefts, Good node) (rightsGood : ∀ node ∈ rights, Good node)
    (fine : ∀ visit ∈ pairVisits (descend ast identical occursCheck remaining)
      (visits ast identical occursCheck remaining) lefts rights walk,
      visit.Resolved ast ∧ Agrees ast identical masks visit)
    (extended : result.work.Extends final) (done :
      pairwise (descend ast identical occursCheck remaining) lefts rights walk = some result) :
    UnifiedLists ast final lefts rights := by
  induction lefts generalizing rights walk with
  | nil =>
    rw [List.length_eq_zero_iff.mp length.symm]
    exact ⟨[], .nil, .nil⟩
  | cons left lefts ih =>
    cases rights with
    | nil => exact absurd length (by simp)
    | cons right rights =>
      obtain ⟨next, stepped, rest⟩ := pairwise_cons_eq_some.mp done
      have parts := fun visit => (fine visit).comp (mem_pairVisits_cons stepped).mpr
      have later := pairwise_extends (fun visit inside => (parts visit (Or.inr inside)).1) rest
      obtain ⟨leftGood, leftsGood⟩ := List.forall_mem_cons.mp leftsGood
      obtain ⟨rightGood, rightsGood⟩ := List.forall_mem_cons.mp rightsGood
      obtain ⟨value, leftApplies, rightApplies⟩ := each left right walk next leftGood rightGood
        (fun visit inside => parts visit (Or.inl inside)) (later.trans extended) stepped
      obtain ⟨values, leftsApply, rightsApply⟩ := ih (Nat.succ.inj length)
        leftsGood rightsGood (fun visit inside => parts visit (Or.inr inside)) rest
      exact ⟨value :: values, .cons leftApplies leftsApply, .cons rightApplies rightsApply⟩

theorem descend_unified (lawful : LawfulDialect ast Good masks size)
    (sound : ∀ left right, identical left right = true → left = right)
    (acyclic : AcyclicBindings ast final) (goodFinal : GoodValues Good final) :
    ∀ {a b : Node} {walk result : Walk Node}, Good a → Good b →
      (∀ visit ∈ visits ast identical occursCheck remaining a b walk,
        visit.Resolved ast ∧ Agrees ast identical masks visit) →
      result.work.Extends final →
      descend ast identical occursCheck remaining a b walk = some result →
      Unified ast final a b := by
  induction remaining with
  | zero => exact fun _ _ _ _ done => absurd done (by rintro ⟨⟩)
  | succ remaining ih =>
    intro a b walk result aGood bGood fine extended done
    have earlier : walk.work.Extends final :=
      (descend_extends (fun visit inside => (fine visit inside).1) done).trans extended
    have goodWork : GoodValues Good walk.work := fun name value found =>
      goodFinal name value (earlier name value found)
    have exists_value : ∀ {node : Node}, Good node → Unified ast final node node := by
      intro node good
      obtain ⟨value, applies⟩ := applies_exists lawful acyclic goodFinal good
      exact ⟨value, applies, applies⟩
    -- What the two nodes lead to has one value, and so do they.
    suffices anchors : Unified ast final (anchor ast masks walk.work maxDepth a)
        (anchor ast masks walk.work maxDepth b) by
      obtain ⟨value, left, right⟩ := anchors
      exact ⟨value, applies_of_anchor lawful earlier left, applies_of_anchor lawful earlier right⟩
    rcases (fine ⟨a, b, walk⟩ mem_visits_self).2 with same | unmasked
    · change anchor ast masks walk.work maxDepth a = anchor ast masks walk.work maxDepth b at same
      rw [same]
      exact exists_value (anchor_good goodWork maxDepth bGood)
    have leftGood : Good (deref ast walk.work maxDepth a) := deref_good goodWork maxDepth aGood
    have rightGood : Good (deref ast walk.work maxDepth b) := deref_good goodWork maxDepth bGood
    rw [anchor_eq_deref unmasked.left, anchor_eq_deref unmasked.right]
    cases succeeds_of_descend done with
    | identical same =>
      rw [sound _ _ same]
      exact exists_value rightGood
    | sameName name first second =>
      rw [lawful.sameVariable _ _ name first second]
      exact exists_value rightGood
    | bind name value _ step bound =>
      have found : final.get name = some value := by
        refine extended name value ?_
        rw [work_of_bind bound, OrderedMap.get_set, if_pos rfl]
      have clear := unmasked.value name value step
      cases step with
      | left _ named _ =>
        obtain ⟨common, applies, _⟩ := exists_value rightGood
        exact ⟨common, .bound lawful named found clear applies, applies⟩
      | right _ _ named =>
        obtain ⟨common, applies, _⟩ := exists_value leftGood
        exact ⟨common, applies, .bound lawful named found clear applies⟩
    | leaf paired childless equal =>
      have rightChildless : ast.children (deref ast walk.work maxDepth b) = [] :=
        List.length_eq_zero_iff.mp (by rw [← paired.length, childless, List.length_nil])
      rw [lawful.sameLeaf _ _ leftGood rightGood paired.head childless rightChildless equal]
      exact exists_value rightGood
    | children _ different paired nonempty pairsDone =>
      obtain ⟨values, leftKids, rightKids⟩ := pairs_unified
        (fun _ _ _ _ leftGood rightGood fine extended done =>
          ih leftGood rightGood fine extended done) paired.length
        (fun kid member => lawful.childrenGood _ kid leftGood member)
        (fun kid member => lawful.childrenGood _ kid rightGood member)
        (fun visit inside => fine visit (mem_visits_children different paired inside)) extended
        pairsDone
      refine unified_of_children lawful leftGood rightGood paired nonempty (unmasked.heads paired)
        (fun value member => ?_) leftKids rightKids
      obtain ⟨kid, kidMember, applies⟩ := exists_left_of_forall₂ leftKids member
      exact applies.good lawful goodFinal (lawful.childrenGood _ kid leftGood kidMember)

/-! ### From the whole to the pairs -/

/-- What the converse asks of a dialect besides the laws: rebuilding keeps what a node is, and
shows from which children it was rebuilt. -/
structure TransparentDialect (ast : UnifierDialect Node Failure) (masks : Node → Bool) : Prop where
  rebuildPlain : ∀ node kids value, ast.variableName node = none → ast.children node ≠ [] →
    ast.rebuild node kids = .ok value → ast.variableName value = none
  rebuildMasks : ∀ node kids value, masks node = true → ast.children node ≠ [] →
    ast.rebuild node kids = .ok value → masks value = true
  rebuildInjective : ∀ left right kids others value, ast.children left ≠ [] →
    ast.children right ≠ [] → ast.rebuild left kids = .ok value →
    ast.rebuild right others = .ok value →
      kids = others ∧ ∀ more, ast.rebuild left more = ast.rebuild right more

theorem Applies.plain (transparent : TransparentDialect ast masks) {node value}
    (plain : ast.variableName node = none) (applies : Applies ast final node value) :
    ast.variableName value = none ∧ (masks node = true → masks value = true) := by
  by_cases childless : ast.children node = []
  · rw [(applies_childless_iff plain childless).mp applies]
    exact ⟨plain, id⟩
  · obtain ⟨values, -, rebuilt⟩ := (applies_children_iff plain childless).mp applies
    split at rebuilt
    · rw [← Except.ok.inj rebuilt]
      exact ⟨plain, id⟩
    · exact ⟨transparent.rebuildPlain node values value plain childless rebuilt,
        fun masking => transparent.rebuildMasks node values value masking childless rebuilt⟩

theorem Applies.masked (lawful : LawfulDialect ast Good masks size)
    (transparent : TransparentDialect ast masks) {node value}
    (masked : Masked ast masks final node) (applies : Applies ast final node value) :
    value = node := by
  obtain ⟨name, bound, named, found, masking⟩ := masked
  obtain ⟨next, nextApplies, rfl⟩ := (applies_bound_iff named found).mp applies
  have nextMasks := (nextApplies.plain transparent (lawful.masksPlain bound masking)).2 masking
  rw [if_pos ((lawful.equalVariable next node name named).1 nextMasks)]

theorem Unified.masked (lawful : LawfulDialect ast Good masks size)
    (transparent : TransparentDialect ast masks) {left right}
    (unified : Unified ast final left right) (masked : Masked ast masks final left)
    (other : Masked ast masks final right ∨ ast.variableName right = none) : left = right := by
  obtain ⟨value, leftApplies, rightApplies⟩ := unified
  obtain rfl := leftApplies.masked lawful transparent masked
  rcases other with rightMasked | plain
  · exact rightApplies.masked lawful transparent rightMasked
  · obtain ⟨name, bound, named, -⟩ := masked
    exact absurd (named.symm.trans (rightApplies.plain transparent plain).1) (by simp)

omit [DecidableEq Node] in
theorem deref_of_masked (lawful : LawfulDialect ast Good masks size) {work node value name}
    (named : ast.variableName (anchor ast masks work remaining node) = some name)
    (found : work.get name = some value) (masking : masks value = true)
    (resolved : ∀ other, ast.variableName (deref ast work remaining node) = some other →
      work.get other = none) : deref ast work remaining node = value := by
  induction remaining generalizing node with
  | zero => exact absurd (found.symm.trans (resolved name named)) (by simp)
  | succ remaining ih =>
    rw [anchor] at named
    rw [deref] at resolved ⊢
    cases nodeNamed : ast.variableName node with
    | none => simp [nodeNamed] at named
    | some first =>
      simp only [nodeNamed] at named resolved ⊢
      cases bound : work.get first with
      | none =>
        simp only [bound, nodeNamed, Option.some.injEq] at named
        rw [← named, bound] at found
        cases found
      | some next =>
        simp only [bound] at named resolved ⊢
        split at named
        · rw [nodeNamed, Option.some.injEq] at named
          rw [named, found, Option.some.injEq] at bound
          subst bound
          cases remaining with
          | zero => rfl
          | succ remaining => rw [deref, lawful.masksPlain value masking]
        · exact ih named resolved

omit [DecidableEq Node] in
theorem Succeeds.bound {remaining left right walk result}
    (succeeds : Succeeds ast identical occursCheck remaining left right walk result)
    (sound : ∀ left right, identical left right = true → left = right) {name} :
    (ast.variableName left = none → ast.variableName right = some name →
        result.work.get name = some left) ∧
      (ast.variableName left = some name → ast.variableName right = none →
        result.work.get name = some right) := by
  have whole : ∀ {bound : String} {value : Node},
      Unify.bind ast bound value occursCheck walk = some result →
      result.work.get bound = some value := by
    intro bound value done
    rw [work_of_bind done, OrderedMap.get_set, if_pos rfl]
  cases succeeds with
  | identical same =>
    rw [sound _ _ same]
    constructor
    · exact fun plain named => absurd (plain.symm.trans named) (by simp)
    · exact fun named plain => absurd (plain.symm.trans named) (by simp)
  | sameName other first second =>
    constructor
    · exact fun plain _ => absurd (plain.symm.trans first) (by simp)
    · exact fun _ plain => absurd (plain.symm.trans second) (by simp)
  | bind other value _ step done =>
    cases step with
    | left _ first _ =>
      constructor
      · exact fun plain _ => absurd (plain.symm.trans first) (by simp)
      · intro named _
        rw [first, Option.some.injEq] at named
        exact named ▸ whole done
    | right _ plainLeft second =>
      constructor
      · intro _ named
        rw [second, Option.some.injEq] at named
        exact named ▸ whole done
      · exact fun named _ => absurd (plainLeft.symm.trans named) (by simp)
  | leaf paired _ _ =>
    constructor
    · exact fun _ named => absurd (paired.rightPlain.symm.trans named) (by simp)
    · exact fun named _ => absurd (paired.leftPlain.symm.trans named) (by simp)
  | children _ _ paired _ _ =>
    constructor
    · exact fun _ named => absurd (paired.rightPlain.symm.trans named) (by simp)
    · exact fun named _ => absurd (paired.leftPlain.symm.trans named) (by simp)

theorem Unified.children (lawful : LawfulDialect ast Good masks size)
    (transparent : TransparentDialect ast masks) {left right} (leftGood : Good left)
    (rightGood : Good right) (paired : Paired ast left right) (nonempty : ast.children left ≠ [])
    (unified : Unified ast final left right) :
    UnifiedLists ast final (ast.children left) (ast.children right) ∧
      ∀ kids, ast.rebuild left kids = ast.rebuild right kids := by
  have rightNonempty : ast.children right ≠ [] := fun none =>
    nonempty (List.length_eq_zero_iff.mp (by rw [paired.length, none, List.length_nil]))
  have rebuild : ∀ {node value : Node} {values : List Node}, Good node → ast.children node ≠ [] →
      (if values = ast.children node then .ok node else ast.rebuild node values) = .ok value →
      ast.rebuild node values = .ok value := by
    intro node value values good nonempty rebuilt
    split at rebuilt
    · rename_i same
      rw [same, lawful.rebuildChildren node good nonempty]
      exact rebuilt
    · exact rebuilt
  obtain ⟨value, leftApplies, rightApplies⟩ := unified
  obtain ⟨values, leftKids, leftRebuilt⟩ :=
    (applies_children_iff paired.leftPlain nonempty).mp leftApplies
  obtain ⟨others, rightKids, rightRebuilt⟩ :=
    (applies_children_iff paired.rightPlain rightNonempty).mp rightApplies
  obtain ⟨rfl, heads⟩ := transparent.rebuildInjective left right values others value nonempty
    rightNonempty (rebuild leftGood nonempty leftRebuilt)
    (rebuild rightGood rightNonempty rightRebuilt)
  exact ⟨⟨values, leftKids, rightKids⟩, heads⟩

theorem Unified.symm {left right} (unified : Unified ast final left right) :
    Unified ast final right left := by
  obtain ⟨value, leftApplies, rightApplies⟩ := unified
  exact ⟨value, rightApplies, leftApplies⟩

section

variable (lawful : LawfulDialect ast Good masks size) (transparent : TransparentDialect ast masks)

include lawful transparent

theorem same_place_of_masked {work} (earlier : work.Extends final) {a b}
    (aResolved : Resolved ast work a) (bResolved : Resolved ast work b) (unified :
      Unified ast final (anchor ast masks work maxDepth a) (anchor ast masks work maxDepth b))
    (masked : Masked ast masks work (anchor ast masks work maxDepth a))
    (bound : ∀ name, ast.variableName (deref ast work maxDepth a) = none →
      ast.variableName (deref ast work maxDepth b) = some name →
        final.get name = some (deref ast work maxDepth a)) :
    anchor ast masks work maxDepth a = anchor ast masks work maxDepth b ∧
      deref ast work maxDepth a = deref ast work maxDepth b := by
  obtain ⟨name, value, named, found, masking⟩ := masked
  have leads := deref_of_masked lawful named found masking aResolved
  have same : anchor ast masks work maxDepth a = anchor ast masks work maxDepth b := by
    refine unified.masked lawful transparent ⟨name, value, named, earlier _ _ found, masking⟩ ?_
    by_cases other : Masked ast masks work (anchor ast masks work maxDepth b)
    · obtain ⟨otherName, otherValue, otherNamed, otherFound, otherMasking⟩ := other
      exact Or.inl ⟨otherName, otherValue, otherNamed, earlier _ _ otherFound, otherMasking⟩
    · rw [anchor_eq_deref other]
      cases otherNamed : ast.variableName (deref ast work maxDepth b) with
      | none => exact Or.inr rfl
      | some otherName =>
        have plain : ast.variableName (deref ast work maxDepth a) = none := by
          rw [leads, lawful.masksPlain value masking]
        refine Or.inl ⟨otherName, value, otherNamed, ?_, masking⟩
        rw [bound otherName plain otherNamed, leads]
  exact ⟨same, leads.trans (deref_of_masked lawful (same ▸ named) found masking bResolved).symm⟩

theorem unmasked_of_unified (sound : ∀ left right, identical left right = true → left = right)
    {visit} (leftGood : Good (visit.left ast)) (rightGood : Good (visit.right ast))
    (extended : result.work.Extends final)
    (succeeds : Succeeds ast identical occursCheck remaining (visit.left ast) (visit.right ast)
      visit.walk result) (unified : Unified ast final (visit.left ast) (visit.right ast))
    (leftClear : ¬ Masked ast masks visit.walk.work
      (anchor ast masks visit.walk.work maxDepth visit.a))
    (rightClear : ¬ Masked ast masks visit.walk.work
      (anchor ast masks visit.walk.work maxDepth visit.b)) :
    Unmasked ast identical masks visit := by
  refine ⟨leftClear, rightClear, fun name value step => ?_, fun paired kids => ?_⟩
  · refine Bool.eq_false_iff.mpr fun masking => ?_
    have plain := lawful.masksPlain value masking
    cases step with
    | left _ named _ =>
      have found := extended _ _ ((succeeds.bound sound).2 named plain)
      have same := unified.masked lawful transparent ⟨name, _, named, found, masking⟩ (Or.inr plain)
      exact absurd ((same ▸ named).symm.trans plain) (by simp)
    | right _ _ named =>
      have found := extended _ _ ((succeeds.bound sound).1 plain named)
      have same := unified.symm.masked lawful transparent ⟨name, _, named, found, masking⟩
        (Or.inr plain)
      exact absurd ((same ▸ named).symm.trans plain) (by simp)
  · by_cases childless : ast.children (visit.left ast) = []
    · have rightChildless : ast.children (visit.right ast) = [] :=
        List.length_eq_zero_iff.mp (by rw [← paired.length, childless, List.length_nil])
      obtain ⟨value, leftApplies, rightApplies⟩ := unified
      rw [← (applies_childless_iff paired.leftPlain childless).mp leftApplies,
        ← (applies_childless_iff paired.rightPlain rightChildless).mp rightApplies]
    · exact (unified.children lawful transparent leftGood rightGood paired childless).2 kids

theorem agrees_of_unified (sound : ∀ left right, identical left right = true → left = right)
    (acyclic : AcyclicBindings ast final) (goodFinal : GoodValues Good final) {visit}
    (aGood : Good visit.a) (bGood : Good visit.b) (resolved : visit.Resolved ast)
    (earlier : visit.walk.work.Extends final) (extended : result.work.Extends final)
    (succeeds : Succeeds ast identical occursCheck remaining (visit.left ast) (visit.right ast)
      visit.walk result) (unified : Unified ast final visit.a visit.b) :
    Agrees ast identical masks visit ∧
      (Paired ast (visit.left ast) (visit.right ast) → ast.children (visit.left ast) ≠ [] →
        UnifiedLists ast final (ast.children (visit.left ast))
          (ast.children (visit.right ast))) := by
  have goodWork : GoodValues Good visit.walk.work := fun name value found =>
    goodFinal name value (earlier name value found)
  have leftGood : Good (visit.left ast) := deref_good goodWork maxDepth aGood
  have rightGood : Good (visit.right ast) := deref_good goodWork maxDepth bGood
  have reach : ∀ {node value : Node}, Good node → Applies ast final node value →
      Applies ast final (anchor ast masks visit.walk.work maxDepth node) value := by
    intro node value good applies
    obtain ⟨other, otherApplies⟩ :=
      applies_exists lawful acyclic goodFinal (anchor_good goodWork maxDepth good)
    rwa [applies.unique (applies_of_anchor lawful earlier otherApplies)]
  have anchors : Unified ast final (anchor ast masks visit.walk.work maxDepth visit.a)
      (anchor ast masks visit.walk.work maxDepth visit.b) := by
    obtain ⟨value, leftApplies, rightApplies⟩ := unified
    exact ⟨value, reach aGood leftApplies, reach bGood rightApplies⟩
  -- At one place the children are the same nodes, each with its own value.
  have together : visit.left ast = visit.right ast →
      UnifiedLists ast final (ast.children (visit.left ast)) (ast.children (visit.right ast)) := by
    intro same
    obtain ⟨values, each⟩ := exists_forall₂_of_forall_mem fun kid member =>
      applies_exists lawful acyclic goodFinal (lawful.childrenGood _ kid leftGood member)
    exact ⟨values, each, same ▸ each⟩
  by_cases leftMasked : Masked ast masks visit.walk.work
      (anchor ast masks visit.walk.work maxDepth visit.a)
  · obtain ⟨samePlace, same⟩ := same_place_of_masked lawful transparent earlier resolved.1
      resolved.2 anchors leftMasked
      fun name plain named => extended _ _ ((succeeds.bound sound).1 plain named)
    exact ⟨Or.inl samePlace, fun _ _ => together same⟩
  by_cases rightMasked : Masked ast masks visit.walk.work
      (anchor ast masks visit.walk.work maxDepth visit.b)
  · obtain ⟨samePlace, same⟩ := same_place_of_masked lawful transparent earlier resolved.2
      resolved.1 anchors.symm rightMasked
      fun name plain named => extended _ _ ((succeeds.bound sound).2 named plain)
    exact ⟨Or.inl samePlace.symm, fun _ _ => together same.symm⟩
  rw [anchor_eq_deref leftMasked, anchor_eq_deref rightMasked] at anchors
  exact ⟨Or.inr (unmasked_of_unified lawful transparent sound leftGood rightGood extended succeeds
      anchors leftMasked rightMasked),
    fun paired nonempty =>
      (anchors.children lawful transparent leftGood rightGood paired nonempty).1⟩

end

theorem pairs_agree (each : ∀ a b walk result, Good a → Good b →
      (∀ visit ∈ visits ast identical occursCheck remaining a b walk, visit.Resolved ast) →
      result.work.Extends final →
      descend ast identical occursCheck remaining a b walk = some result →
      Unified ast final a b →
      ∀ visit ∈ visits ast identical occursCheck remaining a b walk,
        Agrees ast identical masks visit) {lefts rights walk}
    (leftsGood : ∀ node ∈ lefts, Good node) (rightsGood : ∀ node ∈ rights, Good node)
    (resolved : ∀ visit ∈ pairVisits (descend ast identical occursCheck remaining)
      (visits ast identical occursCheck remaining) lefts rights walk, visit.Resolved ast)
    (extended : result.work.Extends final)
    (done : pairwise (descend ast identical occursCheck remaining) lefts rights walk = some result)
    (unified : UnifiedLists ast final lefts rights) :
    ∀ visit ∈ pairVisits (descend ast identical occursCheck remaining)
      (visits ast identical occursCheck remaining) lefts rights walk,
      Agrees ast identical masks visit := by
  induction lefts generalizing rights walk with
  | nil => simp
  | cons left lefts ih =>
    cases rights with
    | nil => simp
    | cons right rights =>
      obtain ⟨next, stepped, rest⟩ := pairwise_cons_eq_some.mp done
      have parts := fun visit => (resolved visit).comp (mem_pairVisits_cons stepped).mpr
      have laterResolved := fun visit inside => parts visit (Or.inr inside)
      have later := pairwise_extends laterResolved rest
      obtain ⟨leftGood, leftsGood⟩ := List.forall_mem_cons.mp leftsGood
      obtain ⟨rightGood, rightsGood⟩ := List.forall_mem_cons.mp rightsGood
      obtain ⟨values, leftApply, rightApply⟩ := unified
      cases leftApply with
      | cons leftApplies leftsApply =>
        cases rightApply with
        | cons rightApplies rightsApply =>
          intro visit inside
          rcases (mem_pairVisits_cons stepped).mp inside with here | there
          · exact each left right walk next leftGood rightGood
              (fun visit inside => parts visit (Or.inl inside)) (later.trans extended) stepped
              ⟨_, leftApplies, rightApplies⟩ visit here
          · exact ih leftsGood rightsGood laterResolved rest
              ⟨_, leftsApply, rightsApply⟩ visit there

theorem descend_agrees (lawful : LawfulDialect ast Good masks size)
    (transparent : TransparentDialect ast masks)
    (sound : ∀ left right, identical left right = true → left = right)
    (acyclic : AcyclicBindings ast final) (goodFinal : GoodValues Good final) :
    ∀ {a b : Node} {walk result : Walk Node}, Good a → Good b →
      (∀ visit ∈ visits ast identical occursCheck remaining a b walk, visit.Resolved ast) →
      result.work.Extends final →
      descend ast identical occursCheck remaining a b walk = some result →
      Unified ast final a b →
      ∀ visit ∈ visits ast identical occursCheck remaining a b walk,
        Agrees ast identical masks visit := by
  induction remaining with
  | zero => exact fun _ _ _ _ done => absurd done (by rintro ⟨⟩)
  | succ remaining ih =>
    intro a b walk result aGood bGood resolved extended done unified visit inside
    have earlier : walk.work.Extends final := (descend_extends resolved done).trans extended
    have goodWork : GoodValues Good walk.work := fun name value found =>
      goodFinal name value (earlier name value found)
    have succeeds := succeeds_of_descend done
    let here : Visit Node := ⟨a, b, walk⟩
    have hereResolved : here.Resolved ast := resolved here mem_visits_self
    have root := agrees_of_unified lawful transparent sound acyclic goodFinal aGood bGood
      hereResolved earlier extended succeeds unified
    obtain rfl | ⟨paired, nonempty, pairsDone, deeper, inner⟩ := visit_cases done inside
    · exact root.1
    · exact pairs_agree
        (fun _ _ _ _ leftGood rightGood good extended done unified =>
          ih leftGood rightGood good extended done unified)
        (fun kid member => lawful.childrenGood _ kid (deref_good goodWork maxDepth aGood) member)
        (fun kid member => lawful.childrenGood _ kid (deref_good goodWork maxDepth bGood) member)
        (fun visit there => resolved visit (inner visit there)) extended pairsDone
        (root.2 paired nonempty) visit deeper

/-! ### The unifier -/

/-- No depth cap shows in a call: every visited pair is resolved, and the occurs check finds
what is there to be found. -/
structure Uncut (ast : UnifierDialect Node Failure) (call : Call Node) : Prop where
  resolved : ∀ visit ∈ call.visits ast, visit.Resolved ast
  found : OccursFound ast call

section Answer

variable {unifier : Unifier Node} {call : Call Node} {result : Substitution Node}

omit [DecidableEq Node] in
theorem unify_extends (answers : MemoAnswers ast unifier call) (uncut : Uncut ast call)
    (done : (unifier.unify ast call).1 = some result) : call.subst.Extends result := by
  obtain ⟨walk, solved, same⟩ := exists_walk answers done
  intro name value found
  rw [← same name]
  exact descend_extends uncut.resolved solved name value found

theorem unify_unified (lawful : LawfulDialect ast Good masks size)
    (sound : ∀ left right, call.identical left right = true → left = right)
    (answers : MemoAnswers ast unifier call) (checked : call.occursCheck = true)
    (acyclic : AcyclicBindings ast call.subst) (aGood : Good call.a) (bGood : Good call.b)
    (substGood : GoodValues Good call.subst) (uncut : Uncut ast call)
    (agree : ∀ visit ∈ call.visits ast, Agrees ast call.identical masks visit)
    (done : (unifier.unify ast call).1 = some result) : Unified ast result call.a call.b := by
  obtain ⟨walk, solved, same⟩ := exists_walk answers done
  refine Unified.congr same (descend_unified lawful sound ?_ ?_ aGood bGood
    (fun visit inside => ⟨uncut.resolved visit inside, agree visit inside⟩) (.refl _) solved)
  · exact solve_acyclic checked uncut.found acyclic solved
  · exact descend_good lawful aGood bGood substGood solved

theorem unify_unified_iff (lawful : LawfulDialect ast Good masks size)
    (transparent : TransparentDialect ast masks)
    (sound : ∀ left right, call.identical left right = true → left = right)
    (answers : MemoAnswers ast unifier call) (checked : call.occursCheck = true)
    (acyclic : AcyclicBindings ast call.subst) (aGood : Good call.a) (bGood : Good call.b)
    (substGood : GoodValues Good call.subst) (uncut : Uncut ast call)
    (done : (unifier.unify ast call).1 = some result) :
    Unified ast result call.a call.b ↔
      ∀ visit ∈ call.visits ast, Agrees ast call.identical masks visit := by
  refine ⟨fun unified => ?_, fun agree => unify_unified lawful sound answers checked acyclic aGood
    bGood substGood uncut agree done⟩
  obtain ⟨walk, solved, same⟩ := exists_walk answers done
  refine descend_agrees lawful transparent sound ?_ ?_ aGood bGood uncut.resolved (.refl _) solved
    (unified.congr fun key => (same key).symm)
  · exact solve_acyclic checked uncut.found acyclic solved
  · exact descend_good lawful aGood bGood substGood solved

end Answer

/-! ### A variable against a node without variables -/

section Ground

variable {name : String}

omit [DecidableEq Node] in
theorem deref_empty (node : Node) : deref ast .empty maxDepth node = node := by
  rw [maxDepth, deref]
  split
  · rfl
  · rfl

/-- The visit of two nodes with no bindings. -/
def Visit.start (a b : Node) : Visit Node :=
  { a := a, b := b, walk := { work := .empty, added := [] } }

omit [DecidableEq Node] in
theorem uncut_of_ground {call : Call Node} (fresh : call.subst = .empty)
    (named : ast.variableName call.a = some name)
    (ground : ∀ other, ¬ Mentions ast other call.b) :
    call.visits ast = [.start call.a call.b] ∧ Uncut ast call := by
  have left : (Visit.start call.a call.b).left ast = call.a := deref_empty call.a
  have right : (Visit.start call.a call.b).right ast = call.b := deref_empty call.b
  have only : call.visits ast = [.start call.a call.b] := by
    have unpaired : ¬ (call.identical call.a call.b = false ∧ Paired ast call.a call.b) :=
      fun both => absurd (both.2.leftPlain.symm.trans named) (by simp)
    rw [Call.visits, fresh, maxDepth, visits]
    simp only [deref_empty, if_neg unpaired, Visit.start]
  refine ⟨only, fun visit inside => ?_, fun visit inside bound value step reaches => ?_⟩
  · obtain rfl := List.mem_singleton.mp (only ▸ inside)
    exact ⟨fun _ _ => rfl, fun _ _ => rfl⟩
  · obtain rfl := List.mem_singleton.mp (only ▸ inside)
    obtain ⟨other, mentions, -⟩ := reaches
    rw [left, right] at step
    cases step with
    | left => exact absurd mentions (ground other)
    | right _ plain _ => exact absurd (plain.symm.trans named) (by simp)

omit [DecidableEq Node] in
theorem agrees_of_ground {identical a b} (named : ast.variableName a = some name)
    (clear : masks b = false) : Agrees ast identical masks (.start a b) := by
  have left : (Visit.start a b).left ast = a := deref_empty a
  have right : (Visit.start a b).right ast = b := deref_empty b
  refine Or.inr ⟨?_, ?_, fun bound value step => ?_, fun paired => ?_⟩
  · rintro ⟨_, _, _, found, _⟩
    cases found
  · rintro ⟨_, _, _, found, _⟩
    cases found
  · rw [left, right] at step
    cases step with
    | left => exact clear
    | right _ plain _ => exact absurd (plain.symm.trans named) (by simp)
  · rw [left] at paired
    exact absurd (paired.leftPlain.symm.trans named) (by simp)

end Ground

end Soundness

end Senars.Unify
