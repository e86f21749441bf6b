/-
This file says once what one step of the walk can do, and which pairs a walk
visits. Every property of a walk is derived from these two: the step lemma
splits a step into its five outcomes, and the run lemma carries what a binding
preserves over the whole walk, pair by pair.
-/

import Senars.Unify.Unifier

namespace Senars.Unify

open Library

section Walks

variable {Node Failure : Type} {ast : UnifierDialect Node Failure}
  {identical : Node → Node → Bool} {occursCheck : Bool}

/-! ### Lists walked in step -/

section Pairwise

variable {step : Node → Node → Walk Node → Option (Walk Node)}

@[simp] theorem pairwise_nil_left (rights : List Node) (walk : Walk Node) :
    pairwise step [] rights walk = some walk := by
  cases rights <;> rfl

@[simp] theorem pairwise_nil_right (lefts : List Node) (walk : Walk Node) :
    pairwise step lefts [] walk = some walk := by
  cases lefts <;> rfl

theorem pairwise_cons_eq_some {left right lefts rights walk result} :
    pairwise step (left :: lefts) (right :: rights) walk = some result ↔
      ∃ next, step left right walk = some next ∧ pairwise step lefts rights next = some result := by
  rw [pairwise]
  cases step left right walk with
  | none => simp
  | some next => simp

end Pairwise

/-! ### One step -/

/-- The binding a step over two dereferenced nodes attempts: a name and a value. -/
inductive BindStep (ast : UnifierDialect Node Failure) (identical : Node → Node → Bool)
    (left right : Node) : String → Node → Prop
  | left (name : String) (different : identical left right = false)
      (named : ast.variableName left = some name)
      (other : ast.variableName right ≠ some name) : BindStep ast identical left right name right
  | right (name : String) (different : identical left right = false)
      (plain : ast.variableName left = none) (named : ast.variableName right = some name) :
      BindStep ast identical left right name left

/-- Two dereferenced nodes whose children are walked in step. -/
structure Paired (ast : UnifierDialect Node Failure) (left right : Node) : Prop where
  leftPlain : ast.variableName left = none
  rightPlain : ast.variableName right = none
  head : ast.sameHead left right = true
  length : (ast.children left).length = (ast.children right).length

instance (left right : Node) : Decidable (Paired ast left right) :=
  decidable_of_iff (ast.variableName left = none ∧ ast.variableName right = none ∧
      ast.sameHead left right = true ∧
      (ast.children left).length = (ast.children right).length)
    ⟨fun facts => ⟨facts.1, facts.2.1, facts.2.2.1, facts.2.2.2⟩,
      fun paired => ⟨paired.leftPlain, paired.rightPlain, paired.head, paired.length⟩⟩

/-- The outcomes of a step that succeeds, over the two dereferenced nodes. -/
inductive Succeeds (ast : UnifierDialect Node Failure) (identical : Node → Node → Bool)
    (occursCheck : Bool) (remaining : Nat) (left right : Node) (walk : Walk Node) :
    Walk Node → Prop
  | identical (same : identical left right = true) :
      Succeeds ast identical occursCheck remaining left right walk walk
  | sameName (name : String) (first : ast.variableName left = some name)
      (second : ast.variableName right = some name) :
      Succeeds ast identical occursCheck remaining left right walk walk
  | bind (name : String) (value : Node) (next : Walk Node)
      (step : BindStep ast identical left right name value)
      (bound : bind ast name value occursCheck walk = some next) :
      Succeeds ast identical occursCheck remaining left right walk next
  | leaf (paired : Paired ast left right) (childless : ast.children left = [])
      (equal : ast.equal left right = true) :
      Succeeds ast identical occursCheck remaining left right walk walk
  | children (next : Walk Node) (different : identical left right = false)
      (paired : Paired ast left right) (nonempty : ast.children left ≠ [])
      (done : pairwise (descend ast identical occursCheck remaining) (ast.children left)
        (ast.children right) walk = some next) :
      Succeeds ast identical occursCheck remaining left right walk next

variable {remaining : Nat} {walk result : Walk Node} {a b value : Node} {lefts rights : List Node}
  {name : String}

theorem succeeds_of_descend
    (done : descend ast identical occursCheck (remaining + 1) a b walk = some result) :
    Succeeds ast identical occursCheck remaining (deref ast walk.work maxDepth a)
      (deref ast walk.work maxDepth b) walk result := by
  rw [descend] at done
  simp only at done
  split at done
  · rename_i same
    exact Option.some.inj done ▸ .identical same
  rename_i notIdentical
  have different := Bool.not_eq_true _ ▸ notIdentical
  split at done
  · rename_i name named
    split at done
    · rename_i same
      exact Option.some.inj done ▸ .sameName name named same
    · rename_i other
      exact .bind name _ result (.left name different named other) done
  · rename_i name plain named
    exact .bind name _ result (.right name different plain named) done
  · rename_i leftPlain rightPlain
    split at done
    · cases done
    rename_i head
    split at done
    · cases done
    rename_i length
    have paired : Paired ast (deref ast walk.work maxDepth a) (deref ast walk.work maxDepth b) :=
      ⟨leftPlain, rightPlain, by simpa using head, not_not.mp length⟩
    split at done
    · rename_i childless
      split at done
      · rename_i equal
        exact Option.some.inj done ▸ .leaf paired (List.length_eq_zero_iff.mp childless) equal
      · cases done
    · rename_i nonempty
      exact .children result different paired
        (fun none => nonempty (List.length_eq_zero_iff.mpr none)) done

/-! ### The pairs a walk visits -/

/-- A pair of nodes a walk visits, with the bindings it has then. -/
structure Visit (Node : Type) where
  a : Node
  b : Node
  walk : Walk Node

/-- The node the first of a visited pair resolves to. -/
def Visit.left (ast : UnifierDialect Node Failure) (visit : Visit Node) : Node :=
  deref ast visit.walk.work maxDepth visit.a

/-- The node the second of a visited pair resolves to. -/
def Visit.right (ast : UnifierDialect Node Failure) (visit : Visit Node) : Node :=
  deref ast visit.walk.work maxDepth visit.b

/-- The pairs visited by walking two lists of children in step. -/
def pairVisits (step : Node → Node → Walk Node → Option (Walk Node))
    (visits : Node → Node → Walk Node → List (Visit Node)) :
    List Node → List Node → Walk Node → List (Visit Node)
  | left :: lefts, right :: rights, walk =>
    visits left right walk ++
      match step left right walk with
      | none => []
      | some next => pairVisits step visits lefts rights next
  | _, _, _ => []

section PairVisits

variable {step : Node → Node → Walk Node → Option (Walk Node)}
  {visits : Node → Node → Walk Node → List (Visit Node)}

@[simp] theorem pairVisits_nil_left (rights : List Node) (walk : Walk Node) :
    pairVisits step visits [] rights walk = [] := by
  cases rights <;> rfl

@[simp] theorem pairVisits_nil_right (lefts : List Node) (walk : Walk Node) :
    pairVisits step visits lefts [] walk = [] := by
  cases lefts <;> rfl

theorem mem_pairVisits_cons {left right lefts rights walk next}
    (stepped : step left right walk = some next) {visit} :
    visit ∈ pairVisits step visits (left :: lefts) (right :: rights) walk ↔
      visit ∈ visits left right walk ∨ visit ∈ pairVisits step visits lefts rights next := by
  rw [pairVisits, stepped, List.mem_append]

end PairVisits

/-- The pairs a walk visits, in order. -/
def visits (ast : UnifierDialect Node Failure) (identical : Node → Node → Bool)
    (occursCheck : Bool) : Nat → Node → Node → Walk Node → List (Visit Node)
  | 0, _, _, _ => []
  | remaining + 1, a, b, walk =>
    let left := deref ast walk.work maxDepth a
    let right := deref ast walk.work maxDepth b
    { a := a, b := b, walk := walk } ::
      if identical left right = false ∧ Paired ast left right then
        pairVisits (descend ast identical occursCheck remaining)
          (visits ast identical occursCheck remaining) (ast.children left) (ast.children right) walk
      else []

/-- The pairs the walk of a call visits. -/
def Call.visits (ast : UnifierDialect Node Failure) (call : Call Node) : List (Visit Node) :=
  Unify.visits ast call.identical call.occursCheck maxDepth call.a call.b
    { work := call.subst, added := [] }

theorem mem_visits_self :
    (⟨a, b, walk⟩ : Visit Node) ∈
      visits ast identical occursCheck (remaining + 1) a b walk := by
  exact List.mem_cons_self

variable {visit : Visit Node}

theorem mem_visits_children (different :
      identical (deref ast walk.work maxDepth a) (deref ast walk.work maxDepth b) = false)
    (paired : Paired ast (deref ast walk.work maxDepth a) (deref ast walk.work maxDepth b))
    (inside : visit ∈ pairVisits (descend ast identical occursCheck remaining)
      (visits ast identical occursCheck remaining) (ast.children (deref ast walk.work maxDepth a))
      (ast.children (deref ast walk.work maxDepth b)) walk) :
    visit ∈ visits ast identical occursCheck (remaining + 1) a b walk := by
  rw [visits]
  simp only [if_pos (And.intro different paired)]
  exact List.mem_cons_of_mem _ inside

/-! ### What every binding preserves, the walk preserves -/

theorem pairwise_preserves (Holds : Walk Node → Prop) {Good : Visit Node → Prop} {step visits}
    (each : ∀ left right walk result, (∀ visit ∈ visits left right walk, Good visit) →
      Holds walk → step left right walk = some result → Holds result)
    (good : ∀ visit ∈ pairVisits step visits lefts rights walk, Good visit) (holds : Holds walk)
    (done : pairwise step lefts rights walk = some result) : Holds result := by
  induction lefts generalizing rights walk with
  | nil => exact Option.some.inj ((pairwise_nil_left rights walk).symm.trans done) ▸ holds
  | cons left lefts ih =>
    cases rights with
    | nil => exact Option.some.inj ((pairwise_nil_right _ walk).symm.trans done) ▸ holds
    | cons right rights =>
      obtain ⟨next, stepped, rest⟩ := pairwise_cons_eq_some.mp done
      have parts := fun visit => (good visit).comp (mem_pairVisits_cons stepped).mpr
      have here := each left right walk next (fun visit inside => parts visit (Or.inl inside)) holds
        stepped
      exact ih (fun visit inside => parts visit (Or.inr inside)) here rest

theorem descend_preserves (Holds : Walk Node → Prop) :
    ∀ {a b : Node} {walk result : Walk Node},
      (∀ visit ∈ visits ast identical occursCheck remaining a b walk, Holds visit.walk →
        ∀ name value next, BindStep ast identical (visit.left ast) (visit.right ast) name value →
          bind ast name value occursCheck visit.walk = some next → Holds next) →
      Holds walk → descend ast identical occursCheck remaining a b walk = some result →
      Holds result := by
  induction remaining with
  | zero => exact fun _ _ done => absurd done (by rintro ⟨⟩)
  | succ remaining ih =>
    intro a b walk result step holds done
    cases succeeds_of_descend done with
    | identical same => exact holds
    | sameName name first second => exact holds
    | bind name value _ bindStep bound =>
      exact step ⟨a, b, walk⟩ mem_visits_self holds name value result bindStep bound
    | leaf paired childless equal => exact holds
    | children _ different paired nonempty pairsDone =>
      exact pairwise_preserves Holds
        (fun _ _ _ _ good holds done => ih good holds done)
        (fun visit inside => step visit (mem_visits_children different paired inside)) holds
        pairsDone

/-! ### What a walk whose dereferencing is not cut keeps -/

/-- A node is not resolved to a bound variable, which only the depth cap leaves. -/
def Resolved (ast : UnifierDialect Node Failure) (work : Substitution Node) (node : Node) : Prop :=
  ∀ name, ast.variableName (deref ast work maxDepth node) = some name → work.get name = none

/-- Both nodes of a visited pair are resolved. -/
def Visit.Resolved (ast : UnifierDialect Node Failure) (visit : Visit Node) : Prop :=
  Unify.Resolved ast visit.walk.work visit.a ∧ Unify.Resolved ast visit.walk.work visit.b

theorem work_of_bind {next} (bound : bind ast name value occursCheck walk = some next) :
    next.work = walk.work.set name value := by
  unfold bind at bound
  split at bound
  · cases bound
  · rw [← Option.some.inj bound]

theorem BindStep.fresh
    (step : BindStep ast identical (visit.left ast) (visit.right ast) name value)
    (resolved : visit.Resolved ast) : visit.walk.work.get name = none := by
  cases step with
  | left _ named _ => exact resolved.1 name named
  | right _ _ named => exact resolved.2 name named

theorem descend_extends
    (resolved : ∀ visit ∈ visits ast identical occursCheck remaining a b walk, visit.Resolved ast)
    (done : descend ast identical occursCheck remaining a b walk = some result) :
    walk.work.Extends result.work := by
  refine descend_preserves (fun current => walk.work.Extends current.work)
    (fun visit inside earlier name value next step bound => ?_) (.refl _) done
  rw [work_of_bind bound]
  exact earlier.trans (OrderedMap.extends_set (step.fresh (resolved visit inside)) value)

theorem pairwise_extends
    (resolved : ∀ visit ∈ pairVisits (descend ast identical occursCheck remaining)
      (visits ast identical occursCheck remaining) lefts rights walk, visit.Resolved ast)
    (done :
      pairwise (descend ast identical occursCheck remaining) lefts rights walk = some result) :
    walk.work.Extends result.work :=
  pairwise_preserves (fun current => walk.work.Extends current.work)
    (fun _ _ _ _ good holds done => holds.trans (descend_extends good done)) resolved (.refl _) done

/-- The result of a walk still has the bindings of a visited pair, and the one made there. -/
def Kept (ast : UnifierDialect Node Failure) (identical : Node → Node → Bool) (occursCheck : Bool)
    (visit : Visit Node) (result : Walk Node) : Prop :=
  visit.walk.work.Extends result.work ∧
    ∀ name value, BindStep ast identical (visit.left ast) (visit.right ast) name value →
      ∃ next, bind ast name value occursCheck visit.walk = some next ∧
        next.work.Extends result.work

theorem Kept.trans {visit} {middle result : Walk Node}
    (kept : Kept ast identical occursCheck visit middle) (later : middle.work.Extends result.work) :
    Kept ast identical occursCheck visit result := by
  refine ⟨kept.1.trans later, fun name value step => ?_⟩
  obtain ⟨next, bound, extended⟩ := kept.2 name value step
  exact ⟨next, bound, extended.trans later⟩

theorem descend_of_bindStep (step : BindStep ast identical (deref ast walk.work maxDepth a)
      (deref ast walk.work maxDepth b) name value) :
    descend ast identical occursCheck (remaining + 1) a b walk =
      bind ast name value occursCheck walk := by
  rw [descend]
  cases step with
  | left different named other =>
    simp only [different, named, Bool.false_eq_true, if_false, if_neg other]
  | right different plain named =>
    simp only [different, plain, named, Bool.false_eq_true, if_false]

theorem visit_cases
    (done : descend ast identical occursCheck (remaining + 1) a b walk = some result)
    (inside : visit ∈ visits ast identical occursCheck (remaining + 1) a b walk) :
    let left := deref ast walk.work maxDepth a
    let right := deref ast walk.work maxDepth b
    let deeper := pairVisits (descend ast identical occursCheck remaining)
      (visits ast identical occursCheck remaining) (ast.children left) (ast.children right) walk
    visit = ⟨a, b, walk⟩ ∨
      Paired ast left right ∧ ast.children left ≠ [] ∧
        pairwise (descend ast identical occursCheck remaining) (ast.children left)
          (ast.children right) walk = some result ∧
        visit ∈ deeper ∧
        ∀ other ∈ deeper, other ∈ visits ast identical occursCheck (remaining + 1) a b walk := by
  rw [visits] at inside ⊢
  rcases List.mem_cons.mp inside with rfl | deeper
  · exact .inl rfl
  split at deeper
  swap
  · cases deeper
  rename_i descends
  refine .inr ?_
  simp only [if_pos descends]
  obtain ⟨different, paired⟩ := descends
  cases succeeds_of_descend done with
  | identical same => exact absurd (different.symm.trans same) (by simp)
  | sameName name first second => exact absurd (paired.leftPlain.symm.trans first) (by simp)
  | bind name value _ step bound =>
    cases step with
    | left _ named _ => exact absurd (paired.leftPlain.symm.trans named) (by simp)
    | right _ _ named => exact absurd (paired.rightPlain.symm.trans named) (by simp)
  | leaf _ childless equal =>
    rw [childless] at deeper
    cases deeper
  | children _ _ _ nonempty pairsDone =>
    exact ⟨paired, nonempty, pairsDone, deeper, fun _ there => List.mem_cons_of_mem _ there⟩

theorem pairVisits_kept
    (each : ∀ a b walk result, (∀ visit ∈ visits ast identical occursCheck remaining a b walk,
        visit.Resolved ast) →
      descend ast identical occursCheck remaining a b walk = some result →
      ∀ visit ∈ visits ast identical occursCheck remaining a b walk,
        Kept ast identical occursCheck visit result)
    (resolved : ∀ visit ∈ pairVisits (descend ast identical occursCheck remaining)
      (visits ast identical occursCheck remaining) lefts rights walk, visit.Resolved ast)
    (done :
      pairwise (descend ast identical occursCheck remaining) lefts rights walk = some result) :
    ∀ visit ∈ pairVisits (descend ast identical occursCheck remaining)
      (visits ast identical occursCheck remaining) lefts rights walk,
      Kept ast identical occursCheck visit result := by
  induction lefts generalizing rights walk with
  | nil => simp
  | cons left lefts ih =>
    cases rights with
    | nil => simp
    | cons right rights =>
      obtain ⟨next, stepped, rest⟩ := pairwise_cons_eq_some.mp done
      have parts := fun visit => (resolved visit).comp (mem_pairVisits_cons stepped).mpr
      have later := pairwise_extends (fun visit inside => parts visit (Or.inr inside)) rest
      intro visit inside
      rcases (mem_pairVisits_cons stepped).mp inside with here | there
      · exact (each left right walk next (fun visit inside => parts visit (Or.inl inside)) stepped
          visit here).trans later
      · exact ih (fun visit inside => parts visit (Or.inr inside)) rest visit there

theorem descend_kept :
    ∀ {a b : Node} {walk result : Walk Node},
      (∀ visit ∈ visits ast identical occursCheck remaining a b walk, visit.Resolved ast) →
      descend ast identical occursCheck remaining a b walk = some result →
      ∀ visit ∈ visits ast identical occursCheck remaining a b walk,
        Kept ast identical occursCheck visit result := by
  induction remaining with
  | zero => exact fun _ done => absurd done (by rintro ⟨⟩)
  | succ remaining ih =>
    intro a b walk result resolved done visit inside
    have whole := descend_extends resolved done
    obtain rfl | ⟨_, _, pairsDone, deeper, inner⟩ := visit_cases done inside
    · exact ⟨whole, fun name value step => ⟨result, descend_of_bindStep step ▸ done, .refl _⟩⟩
    · exact pairVisits_kept
        (fun a b walk result good done => ih good done)
        (fun visit there => resolved visit (inner visit there)) pairsDone visit deeper

end Walks

end Senars.Unify
