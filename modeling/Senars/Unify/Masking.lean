/-
This file is the laws soundness asks of a dialect, and what application makes of
a variable under them.

Application leaves a variable in place when the dialect reads the value it found
as equal to the variable, which a shallow equality does for every compound. Such
a value masks the variable. Application therefore follows a variable's bindings
only up to a masked one, where the walk follows them to their end.
-/

import Senars.Unify.Apply

namespace Senars.Unify

open Library

/-- What soundness asks of a dialect, on the nodes that are good. A value masks a variable if
the dialect's equality holds of it and any variable. -/
structure LawfulDialect {Node Failure : Type} (ast : UnifierDialect Node Failure)
    (Good : Node → Prop) (masks : Node → Bool) (size : Node → Nat) : Prop where
  smaller : ∀ node kid, kid ∈ ast.children node → size kid < size node
  childrenGood : ∀ node kid, Good node → kid ∈ ast.children node → Good kid
  rebuilds : ∀ node kids, Good node → (∀ kid ∈ kids, Good kid) → ast.children node ≠ [] →
    kids.length = (ast.children node).length →
      ∃ value, ast.rebuild node kids = .ok value ∧ Good value
  rebuildChildren : ∀ node, Good node → ast.children node ≠ [] →
    ast.rebuild node (ast.children node) = .ok node
  sameVariable : ∀ left right name, ast.variableName left = some name →
    ast.variableName right = some name → left = right
  sameLeaf : ∀ left right, Good left → Good right → ast.sameHead left right = true →
    ast.children left = [] → ast.children right = [] → ast.equal left right = true → left = right
  equalVariable : ∀ value term name, ast.variableName term = some name →
    (masks value = true → ast.equal value term = true) ∧
      (ast.equal value term = true → masks value = true ∨ value = term)
  masksPlain : ∀ value, masks value = true → ast.variableName value = none
  masksRebuild : ∀ node kids value, ast.children node ≠ [] → masks node = false →
    ast.rebuild node kids = .ok value → masks value = false

section Masking

variable {Node Failure : Type} {ast : UnifierDialect Node Failure}
  {identical : Node → Node → Bool} {Good : Node → Prop} {masks : Node → Bool} {size : Node → Nat}

/-- Every value of a substitution is good. -/
def GoodValues (Good : Node → Prop) (subst : Substitution Node) : Prop :=
  ∀ name value, subst.get name = some value → Good value

theorem goodValues_empty : GoodValues Good (.empty : Substitution Node) := by
  intro name value found
  cases found

/-! ### The walk keeps to good nodes -/

variable {work : Substitution Node} {node : Node}

theorem deref_good (goodWork : GoodValues Good work) (remaining : Nat) (good : Good node) :
    Good (deref ast work remaining node) := by
  induction remaining generalizing node with
  | zero => exact good
  | succ remaining ih =>
    rw [deref]
    split
    · exact good
    split
    · exact good
    · rename_i bound found
      exact ih (goodWork _ _ found)

theorem GoodValues.set {work} (goodWork : GoodValues Good work) {name value} (good : Good value) :
    GoodValues Good (work.set name value) := by
  intro other bound found
  rw [OrderedMap.get_set] at found
  split at found
  · exact Option.some.inj found ▸ good
  · exact goodWork other bound found

theorem pairwise_good {step}
    (each : ∀ left right walk result, Good left → Good right → GoodValues Good walk.work →
      step left right walk = some result → GoodValues Good result.work) {lefts rights walk result}
    (leftsGood : ∀ node ∈ lefts, Good node) (rightsGood : ∀ node ∈ rights, Good node)
    (good : GoodValues Good walk.work) (done : pairwise step lefts rights walk = some result) :
    GoodValues Good result.work := by
  induction lefts generalizing rights walk with
  | nil => exact Option.some.inj ((pairwise_nil_left rights walk).symm.trans done) ▸ good
  | cons left lefts ih =>
    cases rights with
    | nil => exact Option.some.inj ((pairwise_nil_right _ walk).symm.trans done) ▸ good
    | cons right rights =>
      obtain ⟨next, stepped, rest⟩ := pairwise_cons_eq_some.mp done
      obtain ⟨leftGood, leftsGood⟩ := List.forall_mem_cons.mp leftsGood
      obtain ⟨rightGood, rightsGood⟩ := List.forall_mem_cons.mp rightsGood
      exact ih leftsGood rightsGood
        (each left right walk next leftGood rightGood good stepped) rest

theorem descend_good (lawful : LawfulDialect ast Good masks size) {occursCheck remaining} :
    ∀ {a b : Node} {walk result : Walk Node}, Good a → Good b →
      GoodValues Good walk.work → descend ast identical occursCheck remaining a b walk =
        some result → GoodValues Good result.work := by
  induction remaining with
  | zero => exact fun _ _ _ done => absurd done (by rintro ⟨⟩)
  | succ remaining ih =>
    intro a b walk result aGood bGood good done
    have leftGood : Good (deref ast walk.work maxDepth a) := deref_good good maxDepth aGood
    have rightGood : Good (deref ast walk.work maxDepth b) := deref_good good maxDepth bGood
    cases succeeds_of_descend done with
    | identical same => exact good
    | sameName name first second => exact good
    | bind name value _ step bound =>
      rw [work_of_bind bound]
      cases step with
      | left => exact good.set rightGood
      | right => exact good.set leftGood
    | leaf paired childless equal => exact good
    | children _ different paired nonempty pairsDone =>
      exact pairwise_good
        (fun _ _ _ _ leftGood rightGood good done =>
          ih leftGood rightGood good done)
        (fun kid member => lawful.childrenGood _ kid leftGood member)
        (fun kid member => lawful.childrenGood _ kid rightGood member) good pairsDone

/-! ### What masks a variable -/

/-- A node is a variable bound to a value that masks it. -/
def Masked (ast : UnifierDialect Node Failure) (masks : Node → Bool) (work : Substitution Node)
    (node : Node) : Prop :=
  ∃ name value, ast.variableName node = some name ∧ work.get name = some value ∧
    masks value = true

/-- Follow a variable's bindings as far as application does: up to a masked variable. -/
def anchor (ast : UnifierDialect Node Failure) (masks : Node → Bool) (work : Substitution Node) :
    Nat → Node → Node
  | 0, node => node
  | remaining + 1, node =>
    match ast.variableName node with
    | none => node
    | some name =>
      match work.get name with
      | none => node
      | some bound => if masks bound then node else anchor ast masks work remaining bound

/-- A step that masks nothing and pairs only nodes that are rebuilt alike. -/
structure Unmasked (ast : UnifierDialect Node Failure) (identical : Node → Node → Bool)
    (masks : Node → Bool) (visit : Visit Node) : Prop where
  left : ¬ Masked ast masks visit.walk.work (anchor ast masks visit.walk.work maxDepth visit.a)
  right : ¬ Masked ast masks visit.walk.work (anchor ast masks visit.walk.work maxDepth visit.b)
  value : ∀ name value,
    BindStep ast identical (visit.left ast) (visit.right ast) name value → masks value = false
  heads : Paired ast (visit.left ast) (visit.right ast) →
    ∀ kids, ast.rebuild (visit.left ast) kids = ast.rebuild (visit.right ast) kids

/-- Both nodes of a visited pair lead to one place, or the step masks nothing. -/
def Agrees (ast : UnifierDialect Node Failure) (identical : Node → Node → Bool)
    (masks : Node → Bool) (visit : Visit Node) : Prop :=
  anchor ast masks visit.walk.work maxDepth visit.a =
      anchor ast masks visit.walk.work maxDepth visit.b ∨
    Unmasked ast identical masks visit

theorem anchor_good (goodWork : GoodValues Good work) (remaining : Nat) (good : Good node) :
    Good (anchor ast masks work remaining node) := by
  induction remaining generalizing node with
  | zero => exact good
  | succ remaining ih =>
    rw [anchor]
    split
    · exact good
    split
    · exact good
    rename_i bound found
    split
    · exact good
    · exact ih (goodWork _ _ found)

theorem anchor_eq_deref {remaining}
    (clear : ¬ Masked ast masks work (anchor ast masks work remaining node)) :
    anchor ast masks work remaining node = deref ast work remaining node := by
  induction remaining generalizing node with
  | zero => rfl
  | succ remaining ih =>
    rw [anchor] at clear ⊢
    rw [deref]
    cases named : ast.variableName node with
    | none => rfl
    | some name =>
      simp only [named] at clear ⊢
      cases found : work.get name with
      | none => rfl
      | some bound =>
        simp only [found] at clear ⊢
        by_cases masking : masks bound = true
        · rw [if_pos masking] at clear
          exact absurd ⟨name, bound, named, found, masking⟩ clear
        · rw [if_neg masking] at clear ⊢
          exact ih clear

/-! ### The value of a good node -/

section Values

variable [DecidableEq Node] {subst : Substitution Node}

omit [DecidableEq Node] in
theorem applyAll_good {step kids} (each : ∀ kid ∈ kids, ∀ answer, step kid = some answer →
      ∃ value, answer = .ok value ∧ Good value) {answer : Except Failure (List Node)}
    (done : applyAll step kids = some answer) :
    ∃ values, answer = .ok values ∧ (∀ value ∈ values, Good value) ∧
      values.length = kids.length := by
  induction kids generalizing answer with
  | nil => exact ⟨[], (Option.some.inj done).symm, by simp, rfl⟩
  | cons kid rest ih =>
    rw [applyAll] at done
    cases kidDone : step kid with
    | none => rw [kidDone] at done; cases done
    | some kidAnswer =>
      obtain ⟨next, rfl, nextGood⟩ := each kid List.mem_cons_self kidAnswer kidDone
      simp only [kidDone] at done
      cases restDone : applyAll step rest with
      | none => rw [restDone] at done; cases done
      | some restAnswer =>
        obtain ⟨others, rfl, othersGood, length⟩ := ih
          (fun other member => each other (List.mem_cons_of_mem _ member)) restDone
        simp only [restDone] at done
        exact ⟨next :: others, (Option.some.inj done).symm,
          List.forall_mem_cons.mpr ⟨nextGood, othersGood⟩, congrArg (· + 1) length⟩

variable {term : Node}

theorem apply_good (lawful : LawfulDialect ast Good masks size)
    (goodValues : GoodValues Good subst) {fuel} (good : Good term) {answer}
    (done : apply ast subst fuel term = some answer) :
    ∃ value, answer = .ok value ∧ Good value := by
  induction fuel generalizing term answer with
  | zero => cases done
  | succ fuel ih =>
    rw [apply] at done
    split at done
    · rename_i name named
      split at done
      · exact ⟨term, (Option.some.inj done).symm, good⟩
      rename_i bound found
      cases boundDone : apply ast subst fuel bound with
      | none => rw [boundDone] at done; cases done
      | some next =>
        obtain ⟨value, rfl, valueGood⟩ :=
          ih (goodValues name bound found) boundDone
        simp only [boundDone] at done
        refine ⟨_, (Option.some.inj done).symm, ?_⟩
        split
        · exact good
        · exact valueGood
    · simp only at done
      split at done
      · exact ⟨term, (Option.some.inj done).symm, good⟩
      rename_i nonempty
      have some : ast.children term ≠ [] := fun none => nonempty (congrArg List.length none)
      cases kidsDone : applyAll (apply ast subst fuel) (ast.children term) with
      | none => rw [kidsDone] at done; cases done
      | some applied =>
        obtain ⟨values, rfl, valuesGood, length⟩ := applyAll_good
          (fun kid member _ kidDone =>
            ih (lawful.childrenGood term kid good member) kidDone) kidsDone
        simp only [kidsDone] at done
        split at done
        · exact ⟨term, (Option.some.inj done).symm, good⟩
        · obtain ⟨value, rebuilt, valueGood⟩ :=
            lawful.rebuilds term values good valuesGood some length
          exact ⟨value, (Option.some.inj done).symm.trans rebuilt, valueGood⟩

theorem applies_exists (lawful : LawfulDialect ast Good masks size)
    (acyclic : AcyclicBindings ast subst) (goodValues : GoodValues Good subst) (good : Good term) :
    ∃ value, Applies ast subst term value := by
  obtain ⟨answer, enough, done⟩ := acyclic.terminates lawful.smaller term
  obtain ⟨value, rfl, -⟩ := apply_good lawful goodValues good (done enough le_rfl)
  exact ⟨value, enough, done⟩

theorem Applies.good (lawful : LawfulDialect ast Good masks size)
    (goodValues : GoodValues Good subst) {term value} (good : Good term)
    (applies : Applies ast subst term value) : Good value := by
  obtain ⟨enough, done⟩ := applies
  obtain ⟨found, same, foundGood⟩ := apply_good lawful goodValues good (done enough le_rfl)
  exact Except.ok.inj same ▸ foundGood

theorem Applies.unmasked (lawful : LawfulDialect ast Good masks size) {value}
    (clear : masks term = false) (applies : Applies ast subst term value) :
    masks value = false := by
  cases named : ast.variableName term with
  | some name =>
    cases found : subst.get name with
    | none => rwa [applies.unique (.unbound named found)]
    | some bound =>
      obtain ⟨next, -, rfl⟩ := (applies_bound_iff named found).mp applies
      split
      · exact clear
      · rename_i different
        exact Bool.eq_false_iff.mpr fun masking =>
          different ((lawful.equalVariable next term name named).1 masking)
  | none =>
    by_cases childless : ast.children term = []
    · rwa [(applies_childless_iff named childless).mp applies]
    · obtain ⟨values, -, rebuilt⟩ := (applies_children_iff named childless).mp applies
      split at rebuilt
      · exact Except.ok.inj rebuilt ▸ clear
      · exact lawful.masksRebuild term values value childless clear rebuilt

theorem Applies.bound (lawful : LawfulDialect ast Good masks size) {term bound value name}
    (named : ast.variableName term = some name) (found : subst.get name = some bound)
    (clear : masks bound = false) (applies : Applies ast subst bound value) :
    Applies ast subst term value := by
  refine (applies_bound_iff named found).mpr ⟨value, applies, ?_⟩
  split
  · rename_i equal
    have unmasked := applies.unmasked lawful clear
    rcases (lawful.equalVariable value term name named).2 equal with masking | same
    · exact absurd (unmasked.symm.trans masking) (by simp)
    · exact same
  · rfl

theorem applies_of_anchor (lawful : LawfulDialect ast Good masks size) {work}
    (extended : work.Extends subst) {remaining node value}
    (applies : Applies ast subst (anchor ast masks work remaining node) value) :
    Applies ast subst node value := by
  induction remaining generalizing node with
  | zero => exact applies
  | succ remaining ih =>
    rw [anchor] at applies
    split at applies
    · exact applies
    rename_i name named
    split at applies
    · exact applies
    rename_i bound found
    split at applies
    · exact applies
    · rename_i clear
      exact .bound lawful named (extended name bound found) (by simpa using clear)
        (ih applies)

end Values

end Masking

end Senars.Unify
