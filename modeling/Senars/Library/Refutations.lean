/-
This file is the resolution of goals with Horn clauses, over any language of terms
in which substitutions act and compose. A step takes the first goal, renames a
clause apart from all that is there, and goes on with the clause's body under a most
general unifier of the goal and the clause's head. What the asked term has become
when no goal is left is the answer, so an answer is an instance of what was asked.
-/

import Mathlib.Data.Nat.Notation
import Mathlib.Data.Set.Defs

namespace Senars.Library

/-- What resolution reads of a language of terms. -/
structure TermLanguage (Term Bindings Variable : Type) where
  act : Bindings → Term → Term
  identity : Bindings
  compose : Bindings → Bindings → Bindings
  act_identity : ∀ term, act identity term = term
  act_compose : ∀ second first term, act (compose second first) term = act second (act first term)
  variablesOf : Term → Set Variable
  IsRenaming : Bindings → Prop

/-- What follows, and from what. -/
structure HornClause (Term : Type) where
  head : Term
  body : List Term
  deriving DecidableEq

namespace TermLanguage

variable {Term Bindings Variable : Type} (language : TermLanguage Term Bindings Variable)

/-- Bindings that make two terms one. -/
def Unifies (bindings : Bindings) (first second : Term) : Prop :=
  language.act bindings first = language.act bindings second

/-- Bindings that make two terms one, and through which all that do factor. -/
structure MostGeneral (bindings : Bindings) (first second : Term) : Prop where
  unifies : language.Unifies bindings first second
  factors : ∀ others, language.Unifies others first second →
    ∃ rest, ∀ term, language.act others term = language.act rest (language.act bindings term)

/-- A clause under other variables. -/
def rename (fresh : Bindings) (clause : HornClause Term) : HornClause Term where
  head := language.act fresh clause.head
  body := clause.body.map (language.act fresh)

def clauseVariables (clause : HornClause Term) : Set Variable :=
  {name | ∃ term ∈ clause.head :: clause.body, name ∈ language.variablesOf term}

/-- In so many steps the goals are resolved away, and what was asked becomes the answer. -/
inductive Refutes (program : List (HornClause Term)) : ℕ → Term → List Term → Term → Prop
  | done (answer : Term) : Refutes program 0 answer [] answer
  | resolve {steps : ℕ} {asked goal answer : Term} {rest : List Term} (clause : HornClause Term)
      (fresh bindings : Bindings) (member : clause ∈ program)
      (renames : language.IsRenaming fresh)
      (apart : ∀ term ∈ asked :: goal :: rest, ∀ name ∈ language.variablesOf term,
        name ∉ language.clauseVariables (language.rename fresh clause))
      (general : language.MostGeneral bindings goal (language.rename fresh clause).head)
      (later : Refutes program steps (language.act bindings asked)
        (((language.rename fresh clause).body ++ rest).map (language.act bindings)) answer) :
      Refutes program (steps + 1) asked (goal :: rest) answer

variable {language} {program : List (HornClause Term)} {steps : ℕ} {asked goal answer : Term}
  {goals : List Term}

theorem mostGeneral_of_absorbed {bindings first second}
    (unifies : language.Unifies bindings first second)
    (absorbed : ∀ others, language.Unifies others first second →
      ∀ term, language.act others (language.act bindings term) = language.act others term) :
    language.MostGeneral bindings first second :=
  ⟨unifies, fun others same => ⟨others, fun term => (absorbed others same term).symm⟩⟩

theorem Refutes.exists_act (refutes : language.Refutes program steps asked goals answer) :
    ∃ bindings, language.act bindings asked = answer := by
  induction refutes with
  | done answer => exact ⟨language.identity, language.act_identity answer⟩
  | resolve clause fresh bindings _ _ _ _ _ ih =>
    obtain ⟨later, becomes⟩ := ih
    exact ⟨language.compose later bindings, (language.act_compose later bindings _).trans becomes⟩

theorem Refutes.uses (refutes : language.Refutes program steps asked (goal :: goals) answer) :
    1 ≤ steps ∧ program ≠ [] := by
  cases refutes with
  | resolve clause fresh bindings member _ _ _ _ =>
    exact ⟨Nat.le_add_left _ _, List.ne_nil_of_mem member⟩

end TermLanguage

end Senars.Library
