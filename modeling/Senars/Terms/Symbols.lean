/-
This file is about the atoms a factory-built term mentions. Building a compound
and normalising it move arguments around, drop some and bring in the constants
`TRUE` and `FALSE`, and so never mention an atom that is neither a constant nor
in the arguments. A term built by the factory therefore mentions no symbol the
factory would have refused.
-/

import Senars.Terms.NormalForm

namespace Senars.Terms

open Library

/-! ### The atoms of a term -/

/-- Every atom of a term has an allowed symbol. -/
def AtomsAmong (allowed : String → Prop) (term : Term) : Prop :=
  ∀ symbol, .atom symbol ∈ visited term → allowed symbol

section AtomsAmong

variable {allowed : String → Prop}

theorem atomsAmong_atom (symbol : String) :
    AtomsAmong allowed (.atom symbol) ↔ allowed symbol := by
  constructor
  · exact fun among => among symbol List.mem_cons_self
  · intro holds other member
    rw [visited, List.mem_singleton, Term.atom.injEq] at member
    exact member ▸ holds

theorem atomsAmong_compound (kind : OperatorKey) (args : List Term) :
    AtomsAmong allowed (.compound kind args) ↔ ∀ arg ∈ args, AtomsAmong allowed arg := by
  constructor
  · intro among arg member symbol inside
    refine among symbol ?_
    rw [visited, visitedArgs_eq]
    exact List.mem_cons_of_mem _ (List.mem_flatMap.mpr ⟨arg, member, inside⟩)
  · intro among symbol inside
    rw [visited, visitedArgs_eq, List.mem_cons, List.mem_flatMap] at inside
    rcases inside with equal | ⟨arg, member, inner⟩
    · cases equal
    · exact among arg member symbol inner

theorem AtomsAmong.getArgs {term} (among : AtomsAmong allowed term) :
    ∀ arg ∈ getArgs term, AtomsAmong allowed arg := by
  cases term with
  | atom symbol => exact fun arg member => absurd member List.not_mem_nil
  | compound kind args => exact (atomsAmong_compound kind args).mp among

end AtomsAmong

/-! ### Building keeps to them -/

section Preservation

variable {allowed : String → Prop} {collator : Collator}

variable {term : Term}

theorem compoundOf_atomsAmong (constant : allowed "FALSE") {kind args}
    (among : ∀ arg ∈ args, AtomsAmong allowed arg)
    (built : compoundOf collator kind args = .ok term) : AtomsAmong allowed term := by
  rcases compoundOf_cases built with folds | ⟨_, _, equal⟩
  · unfold folded at folds
    split at folds
    · exact Option.some.inj folds ▸ (atomsAmong_atom _).mpr constant
    · exact Option.some.inj folds ▸ among _ List.mem_cons_self
    · exact Option.some.inj folds ▸ among _ List.mem_cons_self
    · exact Option.some.inj folds ▸ among _ List.mem_cons_self
    · cases folds
  · subst equal
    refine (atomsAmong_compound kind _).mpr fun arg member => ?_
    rcases mem_built member with given | ⟨bare, given, _, rfl⟩
    · exact among arg given
    · exact (atomsAmong_compound _ _).mpr fun only onlyMember =>
        List.mem_singleton.mp onlyMember ▸ among bare given

variable {Key : Type} [DecidableEq Key] {key : Term → Key}

section

variable (constants : ∀ symbol : BoolSymbol, allowed symbol.text)

include constants

theorem reduce_atomsAmong {reducer} (member : reducer ∈ termReducers key collator) {next}
    (among : AtomsAmong allowed term) (done : reducer.reduce term = .ok next) :
    AtomsAmong allowed next := by
  have constant : ∀ symbol : BoolSymbol, atomOf symbol.text = .ok next →
      AtomsAmong allowed next := by
    intro symbol built
    rw [atomOf_eq built]
    exact (atomsAmong_atom _).mpr (constants symbol)
  have rebuild : ∀ {kind : OperatorKey} {args : List Term},
      (∀ arg ∈ args, AtomsAmong allowed arg) → compoundOf collator kind args = .ok next →
      AtomsAmong allowed next :=
    fun inner built => compoundOf_atomsAmong (constants .FALSE) inner built
  have absorb : ∀ (id : String) (absorbed : OperatorKey) (symbol : BoolSymbol)
      (absorbing : Bool), reducer = boolAbsorb collator id absorbed symbol absorbing →
      AtomsAmong allowed next := by
    rintro id absorbed symbol absorbing rfl
    cases absorbing with
    | true => exact constant symbol done
    | false =>
      exact rebuild (fun arg inside => among.getArgs arg (List.mem_of_mem_filter inside)) done
  simp only [termReducers, List.mem_cons, List.not_mem_nil, or_false] at member
  rcases member with rfl | rfl | rfl | rfl | rfl | rfl | rfl | same | same | same | same
  · cases term with
    | atom symbol => cases done
    | compound kind args =>
      refine rebuild (fun arg inside => ?_) done
      obtain ⟨outer, outerMember, inner⟩ := List.mem_flatMap.mp inside
      split at inner
      · exact (among.getArgs outer outerMember).getArgs arg inner
      · exact List.mem_singleton.mp inner ▸ among.getArgs outer outerMember
  · cases term with
    | atom symbol => cases done
    | compound kind args =>
      exact rebuild (fun arg inside => among.getArgs arg (mem_of_mem_uniqueBy inside)) done
  · exact constant .FALSE done
  · exact constant .TRUE done
  · simp only [doubleNegation] at done
    split at done
    · rw [← Except.ok.inj done]
      exact (among.getArgs _ List.mem_cons_self).getArgs _ List.mem_cons_self
    · cases done
  · exact constant .FALSE done
  · exact constant .TRUE done
  · exact absorb _ _ _ _ same
  · exact absorb _ _ _ _ same
  · exact absorb _ _ _ _ same
  · exact absorb _ _ _ _ same

theorem canonicalTerm_atomsAmong {normal} (among : AtomsAmong allowed term)
    (done : canonicalTerm key collator term = .ok normal) : AtomsAmong allowed normal := by
  induction term generalizing normal with
  | atom symbol => exact Except.ok.inj done ▸ among
  | compound kind args ih =>
    obtain ⟨normals, current, each, built, settled⟩ := canonicalTerm_compound.mp done
    refine settle_preserves
      (fun _ registered _ _ among _ done => reduce_atomsAmong constants registered among done)
      (compoundOf_atomsAmong (constants .FALSE) (fun inner member => ?_) built) settled
    obtain ⟨arg, argMember, argDone⟩ := exists_left_of_forall₂ each member
    exact ih arg argMember ((atomsAmong_compound kind args).mp among arg argMember)
      argDone

theorem createCompound_atomsAmong {kind args} (among : ∀ arg ∈ args, AtomsAmong allowed arg)
    (built : createCompound key collator kind args = .ok term) : AtomsAmong allowed term := by
  rw [createCompound] at built
  cases raw : compoundOf collator kind args with
  | error error => exact absurd (raw ▸ built) (by rintro ⟨⟩)
  | ok middle =>
    rw [raw] at built
    exact canonicalTerm_atomsAmong constants
      (compoundOf_atomsAmong (constants .FALSE) among raw) built

end

end Preservation

/-! ### Terms the factory builds -/

/-- A term the factory can construct: an atom it accepts, or a compound of such terms. -/
inductive FactoryBuilt (collator : Collator) : Term → Prop
  | atom (symbol : String) (term : Term) (built : atomOf symbol = .ok term) :
      FactoryBuilt collator term
  | compound (kind : OperatorKey) (args : List Term) (term : Term)
      (each : ∀ arg ∈ args, FactoryBuilt collator arg)
      (built : createCompound termKey collator kind args = .ok term) : FactoryBuilt collator term

theorem FactoryBuilt.atomsAmong {collator term} (factoryBuilt : FactoryBuilt collator term) :
    AtomsAmong (fun symbol => atomOf symbol = .ok (.atom symbol)) term := by
  induction factoryBuilt with
  | atom symbol term built =>
    obtain rfl := atomOf_eq built
    exact (atomsAmong_atom symbol).mpr built
  | compound kind args term _ built among =>
    exact createCompound_atomsAmong (fun symbol => by cases symbol <;> rfl) among built

theorem FactoryBuilt.canonical {collator term} (factoryBuilt : FactoryBuilt collator term) :
    Canonical termKey collator term := by
  cases factoryBuilt with
  | atom symbol _ built => exact atomOf_eq built ▸ .atom symbol
  | compound kind args _ _ built => exact createCompound_canonical built

end Senars.Terms
