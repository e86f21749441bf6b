/-
This file is the MeTTa unifier: how it reads an atom, and what follows for it
from the general results.

An expression equals anything, since its operator is its first child, so an
expression masks every variable bound to it. A grounded atom's operation is its
own payload, but the walk asks for the payload of atoms without children only,
so it pairs the arguments of grounded atoms with different operations. Rebuilding
hides nothing, so these two are all that goes wrong in an uncut call.

The memo is keyed by the structural hash, which flattens nesting.
-/

import Senars.Unify.MettaAtom
import Senars.Unify.Soundness

namespace Senars.Unify

open Library

/-! ### The dialect -/

/-- The `value` of an atom that has a text for one. -/
def textValue : MettaAtom → Option String
  | .sym value | .str value => some value
  | _ => none

/-- Equality of an atom's own payload. -/
def sameAtom : MettaAtom → MettaAtom → Bool
  | .sym value, b | .str value, b => textValue b == some value
  | .num value, .num other => value == other && !value.isNaN
  | .grounded op _, .grounded other _ => op == other
  | .expr _ _, _ => true
  | _, _ => false

/-- The immediate sub-atoms. -/
def atomChildren : MettaAtom → List MettaAtom
  | .expr operator args => operator :: args
  | .grounded _ args => args
  | _ => []

/-- What cannot be rebuilt into an atom; application never asks for it. -/
inductive MalformedAtom where
  | noOperator | noOperation

/-- How the unifier reads a MeTTa atom. -/
def mettaDialect (numberText : JsNumber → String) : UnifierDialect MettaAtom MalformedAtom where
  variableName
    | .varr name => some name
    | _ => none
  key := atomKey numberText
  equal := sameAtom
  sameHead a b := a.kind == b.kind
  children := atomChildren
  rebuild
    | .expr _ _, operator :: args => .ok (.expr operator args)
    | .expr _ _, [] => .error .noOperator
    | .grounded op _, kids => .ok (.grounded op kids)
    | _, _ => .error .noOperation

/-- Whether an atom is an expression. -/
def isExpression : MettaAtom → Bool
  | .expr _ _ => true
  | _ => false

theorem sizeOf_atomChildren (atom kid : MettaAtom) (member : kid ∈ atomChildren atom) :
    sizeOf kid < sizeOf atom := by
  cases atom with
  | expr operator args =>
    rw [MettaAtom.expr.sizeOf_spec]
    rcases List.mem_cons.mp member with rfl | inside
    · omega
    · have smaller := List.sizeOf_lt_of_mem inside
      omega
  | grounded op args =>
    have smaller := List.sizeOf_lt_of_mem (show kid ∈ args from member)
    rw [MettaAtom.grounded.sizeOf_spec]
    omega
  | sym | varr | num | str => exact absurd member List.not_mem_nil

section Laws

variable {numberText : JsNumber → String}

theorem variableName_varr {atom name}
    (named : (mettaDialect numberText).variableName atom = some name) : atom = .varr name := by
  cases atom with
  | varr other => exact congrArg MettaAtom.varr (Option.some.inj named)
  | sym | num | str | expr | grounded => cases named

theorem rebuild_cases {atom value kids}
    (rebuilt : (mettaDialect numberText).rebuild atom kids = .ok value) :
    (∃ operator args first rest, atom = .expr operator args ∧ kids = first :: rest ∧
        value = .expr first rest) ∨
      ∃ op args, atom = .grounded op args ∧ value = .grounded op kids := by
  cases atom with
  | expr operator args =>
    cases kids with
    | nil => cases rebuilt
    | cons first rest =>
      exact Or.inl ⟨operator, args, first, rest, rfl, rfl, (Except.ok.inj rebuilt).symm⟩
  | grounded op args => exact Or.inr ⟨op, args, rfl, (Except.ok.inj rebuilt).symm⟩
  | sym | varr | num | str => cases rebuilt

theorem mettaDialect_lawful (numberText : JsNumber → String) :
    LawfulDialect (mettaDialect numberText) (fun _ => True) isExpression sizeOf where
  smaller := sizeOf_atomChildren
  childrenGood _ _ _ _ := trivial
  rebuilds node kids _ _ nonempty length := by
    cases node with
    | expr operator args =>
      cases kids with
      | nil => cases length
      | cons first rest => exact ⟨.expr first rest, rfl, trivial⟩
    | grounded op args => exact ⟨.grounded op kids, rfl, trivial⟩
    | sym | varr | num | str => exact absurd rfl nonempty
  rebuildChildren node _ nonempty := by
    cases node with
    | expr | grounded => rfl
    | sym | varr | num | str => exact absurd rfl nonempty
  sameVariable left right name leftNamed rightNamed :=
    (variableName_varr leftNamed).trans (variableName_varr rightNamed).symm
  sameLeaf left right _ _ head leftChildless rightChildless equal := by
    have kinds : left.kind = right.kind := beq_iff_eq.mp head
    cases left with
    | sym value =>
      cases right with
      | sym other => rw [Option.some.inj (beq_iff_eq.mp equal)]
      | varr | num | str | expr | grounded => cases kinds
    | str value =>
      cases right with
      | str other => rw [Option.some.inj (beq_iff_eq.mp equal)]
      | sym | varr | num | expr | grounded => cases kinds
    | num value =>
      cases right with
      | num other => rw [beq_iff_eq.mp (Bool.and_eq_true_iff.mp equal).1]
      | sym | varr | str | expr | grounded => cases kinds
    | grounded op args =>
      cases right with
      | grounded other otherArgs =>
        have leftArgs : args = [] := leftChildless
        have rightArgs : otherArgs = [] := rightChildless
        rw [beq_iff_eq.mp (equal : (op == other) = true), leftArgs, rightArgs]
      | sym | varr | num | str | expr => cases kinds
    | varr name => cases equal
    | expr operator args => cases leftChildless
  equalVariable value term name named := by
    obtain rfl := variableName_varr named
    cases value with
    | expr operator args => exact ⟨fun _ => rfl, fun _ => Or.inl rfl⟩
    | sym | varr | num | str | grounded =>
      exact ⟨by simp [isExpression], by simp [mettaDialect, sameAtom, textValue]⟩
  masksPlain value masking := by
    cases value with
    | expr operator args => rfl
    | sym | varr | num | str | grounded => cases masking
  masksRebuild node kids value nonempty clear rebuilt := by
    cases node with
    | expr operator args => cases clear
    | grounded op args => exact Except.ok.inj rebuilt ▸ rfl
    | sym | varr | num | str => exact absurd rfl nonempty

theorem mettaDialect_transparent (numberText : JsNumber → String) :
    TransparentDialect (mettaDialect numberText) isExpression where
  rebuildPlain node kids value plain nonempty rebuilt := by
    rcases rebuild_cases rebuilt with ⟨_, _, _, _, _, _, rfl⟩ | ⟨_, _, _, rfl⟩ <;> rfl
  rebuildMasks node kids value masking nonempty rebuilt := by
    rcases rebuild_cases rebuilt with ⟨_, _, _, _, _, _, rfl⟩ | ⟨_, _, rfl, _⟩
    · rfl
    · cases masking
  rebuildInjective left right kids others value _ _ leftRebuilt rightRebuilt := by
    rcases rebuild_cases leftRebuilt with ⟨_, _, _, _, rfl, rfl, rfl⟩ | ⟨_, _, rfl, rfl⟩
    · rcases rebuild_cases rightRebuilt with ⟨_, _, _, _, rfl, rfl, same⟩ | ⟨_, _, _, same⟩
      · obtain ⟨rfl, rfl⟩ := MettaAtom.expr.inj same
        exact ⟨rfl, fun more => by cases more <;> rfl⟩
      · cases same
    · rcases rebuild_cases rightRebuilt with ⟨_, _, _, _, _, _, same⟩ | ⟨_, _, rfl, same⟩
      · cases same
      · obtain ⟨rfl, rfl⟩ := MettaAtom.grounded.inj same
        exact ⟨rfl, fun _ => rfl⟩

end Laws

/-- The arguments of `unify(a, b, subst)`. -/
def atomCall (a b : MettaAtom) (subst : Substitution MettaAtom)
    (identical : MettaAtom → MettaAtom → Bool) : Call MettaAtom where
  a := a
  b := b
  subst := subst
  identical := identical

/-! ### Soundness -/

section Sound

variable {numberText : JsNumber → String} {unifier : Unifier MettaAtom} {a b : MettaAtom}
  {subst result : Substitution MettaAtom} {identical : MettaAtom → MettaAtom → Bool}

/-- The answer for two atoms makes them one exactly if at every pair the walk visits, nothing
that is met or bound masks a variable, and no grounded atoms with different operations are
paired. -/
theorem unify_atoms_sound_iff (acyclic : AcyclicBindings (mettaDialect numberText) subst)
    (sound : ∀ left right, identical left right = true → left = right)
    (answers : MemoAnswers (mettaDialect numberText) unifier (atomCall a b subst identical))
    (uncut : Uncut (mettaDialect numberText) (atomCall a b subst identical))
    (done : (unifier.unify (mettaDialect numberText) (atomCall a b subst identical)).1 =
      some result) :
    Unified (mettaDialect numberText) result a b ↔
      ∀ visit ∈ (atomCall a b subst identical).visits (mettaDialect numberText),
        Agrees (mettaDialect numberText) identical isExpression visit :=
  unify_unified_iff (mettaDialect_lawful numberText) (mettaDialect_transparent numberText) sound
    answers rfl acyclic trivial trivial (fun _ _ _ => trivial) uncut done

end Sound

/-- Unifying `$x` with the grounded `op(a)` makes them one. -/
theorem unify_atoms_sound_iff_grounded :
    Unified (mettaDialect fun _ => "") (OrderedMap.empty.set "x" (.grounded "op" [.sym "a"]))
      (.varr "x") (.grounded "op" [.sym "a"]) := by
  let call := atomCall (.varr "x") (.grounded "op" [.sym "a"]) .empty fun left right =>
    decide (left = right)
  have ground : ∀ other, ¬ Mentions (mettaDialect fun _ => "") other call.b := by
    intro other mentions
    cases mentions with
    | here _ named => cases named
    | inside _ kid _ member deeper =>
      obtain rfl := List.mem_singleton.mp member
      cases deeper with
      | here _ named => cases named
      | inside _ _ _ inner _ => exact absurd inner List.not_mem_nil
  obtain ⟨only, uncut⟩ : call.visits (mettaDialect fun _ => "") = [.start call.a call.b] ∧
      Uncut (mettaDialect fun _ => "") call := uncut_of_ground rfl rfl ground
  refine (unify_atoms_sound_iff acyclicBindings_empty
    (fun left right same => of_decide_eq_true same) (memoAnswers_new {} call) uncut rfl).mpr
    fun visit inside => ?_
  obtain rfl := List.mem_singleton.mp (only ▸ inside)
  exact agrees_of_ground rfl rfl

/-- Unifying `$x` with the expression `(f a)` binds it, and application leaves it in place. -/
theorem unify_variable_with_expression_unsound :
    ¬ ∀ (numberText : JsNumber → String) (a b : MettaAtom) (subst result : Substitution MettaAtom),
      AcyclicBindings (mettaDialect numberText) subst →
      ((Unifier.new {}).unify (mettaDialect numberText)
        (atomCall a b subst fun left right => decide (left = right))).1 = some result →
      Unified (mettaDialect numberText) result a b := by
  intro claim
  let expression := MettaAtom.expr (.sym "f") [.sym "a"]
  obtain ⟨value, left, right⟩ := claim (fun _ => "") (.varr "x") expression .empty
    (OrderedMap.empty.set "x" expression) acyclicBindings_empty rfl
  have stays := left.masked (mettaDialect_lawful _) (mettaDialect_transparent _)
    ⟨"x", expression, rfl, rfl, rfl⟩
  have whole := (right.plain (mettaDialect_transparent _) rfl).1
  rw [stays] at whole
  cases whole

/-- Grounded atoms with different operations unify, too. -/
example : ((Unifier.new {}).unify (mettaDialect fun _ => "")
    (atomCall (.grounded "+" [.sym "a"]) (.grounded "-" [.sym "a"]) .empty fun _ _ => false)).1 =
      some .empty := by
  rfl

/-! ### The memo -/

/-- If every call meets a memo that holds its key only for calls with the same inputs, a
memoising unifier gives every call the answer a fresh unifier without a memo gives it. -/
theorem run_agrees_unmemoised (numberText : JsNumber → String) (options : UnifyOptions)
    (calls : List (Call MettaAtom))
    (faithful : ∀ before call later, calls = before ++ call :: later →
      Faithful (mettaDialect numberText) before
        ((Unifier.new options).after (mettaDialect numberText) before) call) :
    List.Forall₂ (fun call answer => SameAnswer answer
        ((Unifier.new { options with memoize := some false }).unify (mettaDialect numberText)
          call).1)
      calls ((Unifier.new options).run (mettaDialect numberText) calls) := by
  simp only [unify_without_memo]
  exact run_sameAnswer (memoFrom_new options) calls faithful

/-- A call made twice. -/
theorem run_agrees_unmemoised_twice :
    List.Forall₂ (fun call answer => SameAnswer answer
        ((Unifier.new { memoize := some false }).unify (mettaDialect fun _ => "") call).1)
      [atomCall (.varr "x") (.sym "a") .empty fun _ _ => false,
        atomCall (.varr "x") (.sym "a") .empty fun _ _ => false]
      ((Unifier.new {}).run (mettaDialect fun _ => "")
        [atomCall (.varr "x") (.sym "a") .empty fun _ _ => false,
          atomCall (.varr "x") (.sym "a") .empty fun _ _ => false]) := by
  refine run_agrees_unmemoised (fun _ => "") {} _ fun before call later equal memo hit _ _ stored
    earlier _ _ => ?_
  have only : ∀ other ∈ before ++ call :: later,
      other = atomCall (.varr "x") (.sym "a") .empty fun _ _ => false := by
    rw [← equal]
    simp
  rw [only stored (List.mem_append_left _ earlier), only call (by simp)]
  exact ⟨rfl, rfl, rfl, rfl, fun _ => rfl⟩

/-- After `(f a b)` has unified with itself, `((f a) b)` unifies with it out of the memo. -/
theorem run_flattened_replayed :
    ¬ ∀ (numberText : JsNumber → String) (options : UnifyOptions) (calls : List (Call MettaAtom)),
      List.Forall₂ (fun call answer => SameAnswer answer
          ((Unifier.new { options with memoize := some false }).unify (mettaDialect numberText)
            call).1)
        calls ((Unifier.new options).run (mettaDialect numberText) calls) := by
  intro claim
  let flat := MettaAtom.expr (.sym "f") [.sym "a", .sym "b"]
  let nested := MettaAtom.expr (.expr (.sym "f") [.sym "a"]) [.sym "b"]
  let same := atomCall flat flat .empty fun _ _ => false
  let other := atomCall nested flat .empty fun _ _ => false
  have replayed : ((Unifier.new {}).run (mettaDialect fun _ => "") [same, other]).map
      Option.isSome = [true, true] := by
    decide +kernel
  have answers := claim (fun _ => "") {} [same, other]
  generalize (Unifier.new {}).run (mettaDialect fun _ => "") [same, other] = answered
    at replayed answers
  cases answers with
  | cons _ rest =>
    cases rest with
    | cons second _ =>
      change Option.Rel OrderedMap.SameBindings _ none at second
      cases second
      exact absurd replayed (by simp)

end Senars.Unify
