/-
This file is about relations without cycles. Redirecting the edges that leave one
node makes no cycle as long as no new target leads back to it. Edges that go down
in rank make none by themselves. A relation without cycles whose edges leave only
finitely many nodes can be recursed along.
-/

import Mathlib.Data.Fintype.EquivFin
import Mathlib.Data.Fintype.Sets
import Mathlib.Logic.Relation
import Mathlib.Order.WellFounded

namespace Senars.Library

open Relation

variable {Node : Type}

/-- No node leads to itself. -/
def Acyclic (edge : Node → Node → Prop) : Prop := ∀ node, ¬ TransGen edge node node

section Redirect

variable {edge redirected : Node → Node → Prop} {source : Node} {target : Node → Prop}

theorem reaches_source_of_redirected (step : ∀ first second, redirected first second →
      edge first second ∨ first = source ∧ target second)
    (away : ∀ node, target node → ¬ ReflTransGen edge node source) {node}
    (path : ReflTransGen redirected node source) : ReflTransGen edge node source := by
  induction path using ReflTransGen.head_induction_on with
  | refl => exact .refl
  | head first _ ih =>
    rcases step _ _ first with old | ⟨_, new⟩
    · exact .head old ih
    · exact absurd ih (away _ new)

theorem path_of_redirected (step : ∀ first second, redirected first second →
      edge first second ∨ first = source ∧ target second) {first last}
    (path : TransGen redirected first last) :
    TransGen edge first last ∨
      ReflTransGen redirected first source ∧
        ∃ node, target node ∧ ReflTransGen redirected node last := by
  induction path with
  | single only =>
    rcases step _ _ only with old | ⟨rfl, new⟩
    · exact Or.inl (.single old)
    · exact Or.inr ⟨.refl, _, new, .refl⟩
  | tail before final ih =>
    rcases ih with old | ⟨upTo, node, new, after⟩
    · rcases step _ _ final with oldFinal | ⟨rfl, new⟩
      · exact Or.inl (old.tail oldFinal)
      · exact Or.inr ⟨before.to_reflTransGen, _, new, .refl⟩
    · exact Or.inr ⟨upTo, node, new, after.tail final⟩

theorem Acyclic.redirect (acyclic : Acyclic edge)
    (step : ∀ first second, redirected first second →
      edge first second ∨ first = source ∧ target second)
    (away : ∀ node, target node → ¬ ReflTransGen edge node source) : Acyclic redirected := by
  intro node cycle
  rcases path_of_redirected step cycle with old | ⟨upTo, new, isTarget, after⟩
  · exact acyclic node old
  · exact away new isTarget (reaches_source_of_redirected step away (after.trans upTo))

end Redirect

/-! ### Descending edges -/

section Descending

variable {edge : Node → Node → Prop} {rank : Node → Nat} {special : Node → Prop}

theorem descends_or_passes
    (step : ∀ first second, edge first second → rank second < rank first ∨ special second)
    {first last} (path : TransGen edge first last) :
    rank last < rank first ∨
      ∃ node, special node ∧ TransGen edge first node ∧ ReflTransGen edge node last := by
  induction path with
  | single only =>
    rcases step _ _ only with down | passes
    · exact Or.inl down
    · exact Or.inr ⟨_, passes, .single only, .refl⟩
  | tail before final ih =>
    rcases ih with down | ⟨node, passes, upTo, after⟩
    · rcases step _ _ final with downAgain | passes
      · exact Or.inl (downAgain.trans down)
      · exact Or.inr ⟨_, passes, before.tail final, .refl⟩
    · exact Or.inr ⟨node, passes, upTo, after.tail final⟩

theorem acyclic_iff_of_descending
    (step : ∀ first second, edge first second → rank second < rank first ∨ special second) :
    Acyclic edge ↔ ∀ node, special node → ¬ TransGen edge node node := by
  refine ⟨fun acyclic node _ => acyclic node, fun none node cycle => ?_⟩
  rcases descends_or_passes step cycle with down | ⟨through, passes, upTo, after⟩
  · exact lt_irrefl _ down
  · exact none through passes (TransGen.trans_right after upTo)

end Descending

theorem Acyclic.wellFounded {edge} (acyclic : Acyclic edge) (nodes : Finset Node)
    (leaves : ∀ first second, edge first second → first ∈ nodes) :
    WellFounded fun second first => edge first second := by
  have inside : WellFounded fun second first : { node // node ∈ nodes } =>
      TransGen edge first.1 second.1 := by
    have irreflexive : Std.Irrefl fun second first : { node // node ∈ nodes } =>
        TransGen edge first.1 second.1 := ⟨fun node => acyclic node.1⟩
    exact Finite.wellFounded_of_trans_of_irrefl _
  have ending : ∀ node, node ∉ nodes → Acc (fun second first => edge first second) node :=
    fun node outside => .intro node fun next step => absurd (leaves node next step) outside
  refine ⟨fun node => ?_⟩
  by_cases member : node ∈ nodes
  swap
  · exact ending node member
  suffices all : ∀ start : { node // node ∈ nodes },
      Acc (fun second first => edge first second) start.1 from all ⟨node, member⟩
  intro start
  induction start using inside.induction with
  | _ start ih =>
    refine .intro start.1 fun next step => ?_
    by_cases nextMember : next ∈ nodes
    · exact ih ⟨next, nextMember⟩ (.single step)
    · exact ending next nextMember

/-! ### Where each node is entered from one other -/

section LeftUnique

variable {edge : Node → Node → Prop} {start : Node}

theorem cycle_of_leads (leftUnique : Relator.LeftUnique edge) {last}
    (path : ReflTransGen edge start last) (cycle : TransGen edge last last) :
    TransGen edge start start := by
  induction path with
  | refl => exact cycle
  | tail _ final ih =>
    refine ih ?_
    obtain ⟨before, around, closing⟩ := TransGen.tail'_iff.mp cycle
    obtain rfl := leftUnique closing final
    exact TransGen.head' final around

theorem acc_of_leftUnique (leftUnique : Relator.LeftUnique edge) (nodes : Finset Node)
    (leaves : ∀ first second, edge first second → first ∈ nodes)
    (none : ¬ TransGen edge start start) : Acc (fun second first => edge first second) start := by
  have acyclic : Acyclic fun first second => ReflTransGen edge start first ∧ edge first second := by
    intro node cycle
    obtain ⟨_, ⟨path, _⟩, _⟩ := TransGen.head'_iff.mp cycle
    exact none (cycle_of_leads leftUnique path (cycle.lift id fun _ _ step => step.2))
  have wellFounded := acyclic.wellFounded nodes fun first second step => leaves first second step.2
  have each : ∀ node, ReflTransGen edge start node →
      Acc (fun second first => edge first second) node := by
    intro node
    induction node using wellFounded.induction with
    | _ node ih =>
      intro path
      exact .intro node fun next step =>
        ih next ⟨path, step⟩ (path.tail step)
  exact each start .refl

end LeftUnique

end Senars.Library
