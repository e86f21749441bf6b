/-
This file is the inference of the types of MeTTa atoms. The type of an application is what is left
of the operator's type once its first parameter is unified with the first argument. All arguments
are inferred, and no further one is looked at.

An answer of unification makes no other difference to the types under any substitution that makes
the two types the same. So the type of an application with more arguments is longer than the type
it should be, and no substitution makes it that one.
-/

import Senars.Metta.TypeSchemes
import Senars.Metta.TypeUnification
import Senars.Unify.MettaAtom

namespace Senars.Metta

open Library Relation Unify

variable {Id : Type} [DecidableEq Id]

/-! ### Inference -/

abbrev TypeEnv (Id : Type) := OrderedMap String (TypeScheme Id)

/-- A type, with the substitution it is under. -/
structure Inferred (Id : Type) where
  type : MettaType Id
  subst : Subst Id

/-- What an inference comes to, if anything, and the counter after it. None where the fuel runs
out. -/
abbrev Inference (Result : Type) := Option (Option Result × ℕ)

/-- The second substitution, with the bindings of the first one under it. -/
def composeSubst (fuel : ℕ) (s1 s2 : Subst Id) : Option (Subst Id) :=
  s1.entries.foldlM (fun result entry =>
    (applyTypeSubst s2 fuel entry.2).map fun value => result.set entry.1 value) s2

section

variable (fresh : ℕ ↪ Id) (env : TypeEnv Id) (fuel : ℕ)

/-- The type of a name, instantiated. -/
def inferName (name : String) (subst : Subst Id) (counter : ℕ) : Inference (Inferred Id) :=
  match env.get name with
  | none => some (none, counter)
  | some scheme =>
    (instantiate fresh counter scheme fuel).bind fun (type, instSubst) =>
      (composeSubst fuel instSubst subst).map fun subst =>
        (some ⟨type, subst⟩, counter + scheme.vars.length)

/-- The type of an application, by the types of its operator and its arguments. -/
def inferApplied (opResult : Inferred Id) (argResults : List (Inferred Id)) :
    Option (Option (Inferred Id)) :=
  (applyTypeSubst opResult.subst fuel opResult.type).bind fun opType =>
    match opType, argResults with
    | .typefun fromType toType, argResult :: _ =>
      (unifyTypes fuel fromType argResult.type opResult.subst).map fun answer =>
        answer.map fun argSubst => ⟨toType, argSubst⟩
    | _, _ => some none

mutual

def inferType : MettaAtom → Subst Id → ℕ → Inference (Inferred Id)
  | .varr name, subst, counter => inferName fresh env fuel name subst counter
  | .sym value, subst, counter => inferName fresh env fuel value subst counter
  | .num _, subst, counter => some (some ⟨.typecon "Number", subst⟩, counter)
  | .str _, subst, counter => some (some ⟨.typecon "String", subst⟩, counter)
  | .expr operator args, subst, counter =>
    (inferType operator subst counter).bind fun (opResult, counter) =>
      match opResult with
      | none => some (none, counter)
      | some opResult =>
        (inferArgs args opResult.subst counter).bind fun (argResults, counter) =>
          match argResults with
          | none => some (none, counter)
          | some argResults =>
            (inferApplied fuel opResult argResults).map fun result => (result, counter)
  | .grounded _ _, _, counter => some (none, counter)

/-- The types of arguments, each of them under the same substitution. -/
def inferArgs : List MettaAtom → Subst Id → ℕ → Inference (List (Inferred Id))
  | [], _, counter => some (some [], counter)
  | arg :: rest, subst, counter =>
    (inferType arg subst counter).bind fun (argResult, counter) =>
      match argResult with
      | none => some (none, counter)
      | some argResult =>
        (inferArgs rest subst counter).map fun (argResults, counter) =>
          (argResults.map (argResult :: ·), counter)

end

/-- The type of an atom, with its substitution applied. -/
def infer (atom : MettaAtom) (counter : ℕ) : Inference (Inferred Id) :=
  (inferType fresh env fuel atom .empty counter).bind fun (result, counter) =>
    match result with
    | none => some (none, counter)
    | some result =>
      (applyTypeSubst result.subst fuel result.type).map fun type =>
        (some ⟨type, result.subst⟩, counter)

end

/-! ### Applications -/

/-- The type that takes parameters one after the other. -/
def curried (params : List (MettaType Id)) (result : MettaType Id) : MettaType Id :=
  params.foldr .typefun result

/-- There is a parameter for each argument and the two are the same under one substitution, and the
type is what is left under it. -/
def ApplicationSound (opType : MettaType Id) (argTypes : List (MettaType Id))
    (type : MettaType Id) : Prop :=
  ∃ (s : Subst Id) (params : List (MettaType Id)) (result : MettaType Id), AcyclicSubst s ∧
    opType = curried params result ∧ List.Forall₂ (Unified s) params argTypes ∧
      Applies s result type

/-- What is inferred of the operator and of the arguments of an application, each as it is returned
and with its own substitution applied. -/
structure InfersParts (fresh : ℕ ↪ Id) (env : TypeEnv Id) (fuel : ℕ) (operator : MettaAtom)
    (args : List MettaAtom) (counter : ℕ) (opResult : Inferred Id)
    (argResults : List (Inferred Id)) (opType : MettaType Id) (argTypes : List (MettaType Id)) :
    Prop where
  inferred : ∃ next last,
    inferType fresh env fuel operator .empty counter = some (some opResult, next) ∧
      inferArgs fresh env fuel args opResult.subst next = some (some argResults, last)
  opType : Applies opResult.subst opResult.type opType
  argTypes : List.Forall₂ (fun result type => Applies result.subst result.type type) argResults
    argTypes

/-- The type of the first argument has nothing bound in it by the argument's own substitution that
the operator's does not bind. -/
def FirstSettled (fresh : ℕ ↪ Id) (env : TypeEnv Id) (fuel : ℕ) (operator : MettaAtom)
    (args : List MettaAtom) (counter : ℕ) : Prop :=
  ∀ opResult argResult others opType argTypes,
    InfersParts fresh env fuel operator args counter opResult (argResult :: others) opType
      argTypes →
    ∀ type, Applies argResult.subst argResult.type type →
      Applies opResult.subst argResult.type type

section

variable {fresh : ℕ ↪ Id} {env : TypeEnv Id} {fuel : ℕ} {counter last : ℕ}

/-! ### What an inference comes to -/

theorem composeSubst_empty (subst : Subst Id) : composeSubst fuel .empty subst = some subst := rfl

variable {subst : Subst Id} {result : Inferred Id} {argResults : List (Inferred Id)}
  {args : List MettaAtom}

theorem inferName_subst {name}
    (inferred : inferName fresh env fuel name subst counter = some (some result, last)) :
    result.subst = subst := by
  unfold inferName at inferred
  split at inferred
  · cases inferred
  · obtain ⟨⟨type, instSubst⟩, instantiated, rest⟩ := Option.bind_eq_some_iff.mp inferred
    obtain ⟨composed, isComposed, same⟩ := Option.map_eq_some_iff.mp rest
    obtain ⟨_, _, isEmpty⟩ := Option.map_eq_some_iff.mp instantiated
    cases isEmpty
    cases isComposed
    cases same
    rfl

theorem inferApplied_cases {opResult}
    (inferred : inferApplied fuel opResult argResults = some (some result)) :
    ∃ fromType argResult others, argResults = argResult :: others ∧
      Applies opResult.subst opResult.type (.typefun fromType result.type) ∧
      Unifies fromType argResult.type opResult.subst (some result.subst) := by
  obtain ⟨opType, applied, rest⟩ := Option.bind_eq_some_iff.mp inferred
  split at rest
  · next fromType toType argResult others =>
    obtain ⟨answer, unified, isAnswer⟩ := Option.map_eq_some_iff.mp rest
    cases answer with
    | none => cases isAnswer
    | some argSubst =>
      cases isAnswer
      exact ⟨fromType, argResult, others, rfl, applies_of_applyTypeSubst applied,
        unifies_of_unifyTypes unified⟩
  · cases rest

theorem inferExpr_cases {operator}
    (inferred : inferType fresh env fuel (.expr operator args) subst counter =
      some (some result, last)) :
    ∃ opResult argResults next,
      inferType fresh env fuel operator subst counter = some (some opResult, next) ∧
      inferArgs fresh env fuel args opResult.subst next = some (some argResults, last) ∧
      inferApplied fuel opResult argResults = some (some result) := by
  obtain ⟨⟨opResult, next⟩, inferredOp, rest⟩ := Option.bind_eq_some_iff.mp inferred
  cases opResult with
  | none => cases rest
  | some opResult =>
    obtain ⟨⟨argResults, end'⟩, inferredArgs, rest⟩ := Option.bind_eq_some_iff.mp rest
    cases argResults with
    | none => cases rest
    | some argResults =>
      obtain ⟨applied, isApplied, same⟩ := Option.map_eq_some_iff.mp rest
      cases same
      exact ⟨opResult, argResults, next, inferredOp, inferredArgs, isApplied⟩

theorem inferArgs_cons_cases {arg rest} (inferred :
      inferArgs fresh env fuel (arg :: rest) subst counter = some (some argResults, last)) :
    ∃ argResult others next, argResults = argResult :: others ∧
      inferType fresh env fuel arg subst counter = some (some argResult, next) ∧
      inferArgs fresh env fuel rest subst next = some (some others, last) := by
  obtain ⟨⟨argResult, next⟩, inferredArg, later⟩ := Option.bind_eq_some_iff.mp inferred
  cases argResult with
  | none => cases later
  | some argResult =>
    obtain ⟨⟨others, end'⟩, inferredRest, same⟩ := Option.map_eq_some_iff.mp later
    cases others with
    | none => cases same
    | some others =>
      cases same
      exact ⟨argResult, others, next, rfl, inferredArg, inferredRest⟩

theorem inferType_acyclic (atom : MettaAtom) {subst result counter last}
    (acyclic : AcyclicSubst subst)
    (inferred : inferType fresh env fuel atom subst counter = some (some result, last)) :
    AcyclicSubst result.subst := by
  match atom with
  | .sym value =>
    rw [inferName_subst inferred]
    exact acyclic
  | .varr name =>
    rw [inferName_subst inferred]
    exact acyclic
  | .num value =>
    cases inferred
    exact acyclic
  | .str value =>
    cases inferred
    exact acyclic
  | .expr operator args =>
    obtain ⟨opResult, argResults, next, inferredOp, _, applied⟩ := inferExpr_cases inferred
    obtain ⟨fromType, argResult, others, _, _, unifies⟩ := inferApplied_cases applied
    exact unifies.acyclic (inferType_acyclic operator acyclic inferredOp) _ rfl
  | .grounded op args => cases inferred

theorem exists_argTypes (acyclic : AcyclicSubst subst)
    (inferred : inferArgs fresh env fuel args subst counter = some (some argResults, last)) :
    argResults.length = args.length ∧ ∃ argTypes,
      List.Forall₂ (fun result type => Applies result.subst result.type type) argResults
        argTypes := by
  induction args generalizing argResults counter with
  | nil =>
    cases inferred
    exact ⟨rfl, [], .nil⟩
  | cons arg rest ih =>
    obtain ⟨argResult, others, next, rfl, inferredArg, inferredRest⟩ :=
      inferArgs_cons_cases inferred
    obtain ⟨same, argTypes, each⟩ := ih inferredRest
    obtain ⟨type, applied⟩ :=
      (inferType_acyclic arg acyclic inferredArg).exists_applies argResult.type
    exact ⟨congrArg (· + 1) same, type :: argTypes, .cons applied each⟩

theorem infer_cases {operator inferred}
    (returned : infer fresh env fuel (.expr operator args) counter = some (some inferred, last)) :
    ∃ opResult argResult others fromType toType argType otherTypes,
      InfersParts fresh env fuel operator args counter opResult (argResult :: others)
        (.typefun fromType toType) (argType :: otherTypes) ∧
      args.length = otherTypes.length + 1 ∧ AcyclicSubst inferred.subst ∧
      Unifies fromType argResult.type opResult.subst (some inferred.subst) ∧
      Applies inferred.subst toType inferred.type := by
  obtain ⟨⟨result, end'⟩, inferredType, rest⟩ := Option.bind_eq_some_iff.mp returned
  cases result with
  | none => cases rest
  | some result =>
    obtain ⟨type, applied, same⟩ := Option.map_eq_some_iff.mp rest
    cases same
    have acyclic := inferType_acyclic _ acyclicSubst_empty inferredType
    obtain ⟨opResult, argResults, next, inferredOp, inferredArgs, isApplied⟩ :=
      inferExpr_cases inferredType
    obtain ⟨fromType, argResult, others, rfl, opType, unifies⟩ := inferApplied_cases isApplied
    obtain ⟨lengths, argTypes, each⟩ :=
      exists_argTypes (inferType_acyclic _ acyclicSubst_empty inferredOp) inferredArgs
    cases each with
    | @cons _ argType _ otherTypes first others' =>
      refine ⟨opResult, argResult, others, fromType, result.type, argType, otherTypes,
        ⟨⟨next, _, inferredOp, inferredArgs⟩, opType, .cons first others'⟩, ?_, acyclic, unifies,
        applies_of_applyTypeSubst applied⟩
      rw [← lengths, List.length_cons, others'.length_eq]

theorem InfersParts.unique
    {operator args opResult opResult' argResults argResults' opType opType' argTypes argTypes'}
    (parts : InfersParts fresh env fuel operator args counter opResult argResults opType argTypes)
    (again : InfersParts fresh env fuel operator args counter opResult' argResults' opType'
      argTypes') :
    opResult = opResult' ∧ argResults = argResults' ∧ opType = opType' ∧ argTypes = argTypes' := by
  obtain ⟨⟨next, end', inferredOp, inferredArgs⟩, isOpType, each⟩ := parts
  obtain ⟨⟨next', end'', inferredOp', inferredArgs'⟩, isOpType', each'⟩ := again
  cases inferredOp.symm.trans inferredOp'
  cases inferredArgs.symm.trans inferredArgs'
  exact ⟨rfl, rfl, isOpType.unique isOpType',
    List.right_unique_forall₂' (fun _ _ _ one two => one.unique two) each each'⟩

end

/-! ### Types that take parameters -/

section

variable {s : Subst Id} {params : List (MettaType Id)} {result value : MettaType Id}

theorem applies_curried (applies : Applies s (curried params result) value) :
    ∃ values last, value = curried values last ∧ values.length = params.length ∧
      Applies s result last := by
  induction params generalizing value with
  | nil => exact ⟨[], value, rfl, rfl, applies⟩
  | cons param rest ih =>
    obtain ⟨fromValue, toValue, rfl, _, appliedTo⟩ := applies_typefun_iff.mp applies
    obtain ⟨values, last, rfl, lengths, applied⟩ := ih appliedTo
    exact ⟨fromValue :: values, last, rfl, congrArg (· + 1) lengths, applied⟩

omit [DecidableEq Id] in
theorem length_add_size_le (params : List (MettaType Id)) (result : MettaType Id) :
    params.length + result.size ≤ (curried params result).size := by
  induction params with
  | nil => exact (Nat.zero_add _).le
  | cons param rest ih =>
    show rest.length + 1 + result.size ≤ param.size + (curried rest result).size + 1
    omega

theorem no_params_of_absorbs {other base r type} (absorbs : Absorbs other base r)
    (plain : Plain base result) (returned : Applies r (curried params result) type)
    (left : Applies other result type) : params = [] := by
  obtain ⟨values, last, rfl, lengths, applied⟩ := applies_curried returned
  have lastToWhole := (absorbs result plain last applied _).mp left
  obtain ⟨again, inner, same, lengthsAgain, innerApplied⟩ := applies_curried left.plain.applies
  obtain rfl := innerApplied.unique lastToWhole
  have grows := length_add_size_le again (curried values last)
  rw [← same] at grows
  refine List.length_eq_zero_iff.mp ?_
  omega

end

/-! ### One argument -/

theorem plain_curried {s : Subst Id} {params result} (plain : Plain s (curried params result)) :
    Plain s result := by
  induction params with
  | nil => exact plain
  | cons param rest ih =>
    exact ih (plain_typefun_iff.mp plain).2

/-- An application that has a type has it soundly exactly where it has one argument, if nothing is
bound in the type of the first one by its own substitution only: the parameters are the same as the
arguments under one substitution, and the type is what is left under it. -/
theorem application_sound_iff {fresh : ℕ ↪ Id} {env : TypeEnv Id} {fuel counter last : ℕ}
    {operator : MettaAtom} {args : List MettaAtom} {inferred : Inferred Id}
    (returned : infer fresh env fuel (.expr operator args) counter =
      some (some inferred, last))
    (settled : FirstSettled fresh env fuel operator args counter) :
    (∃ opResult argResults opType argTypes,
        InfersParts fresh env fuel operator args counter opResult argResults opType argTypes ∧
          ApplicationSound opType argTypes inferred.type) ↔
      args.length = 1 := by
  obtain ⟨opResult, argResult, others, fromType, toType, argType, otherTypes, parts, lengths,
    acyclic, unifies, left⟩ := infer_cases returned
  cases parts.argTypes with
  | cons first rest =>
  have isArgType := settled _ _ _ _ _ parts argType first
  obtain ⟨plainFrom, plainTo⟩ := plain_typefun_iff.mp parts.opType.plain
  constructor
  · rintro ⟨_, _, _, _, partsAgain, s, params, result, -, isCurried, each, isLeft⟩
    obtain ⟨-, -, rfl, rfl⟩ := parts.unique partsAgain
    cases each with
    | @cons param _ others _ unified eachOther =>
    cases isCurried
    obtain ⟨value, isFirst, isSecond⟩ := unified_iff.mp unified
    have absorbs := unifies.absorbs plainFrom.applies isArgType isFirst isSecond _ rfl
    have none := no_params_of_absorbs absorbs (plain_curried plainTo) left isLeft
    rw [lengths, ← eachOther.length_eq, none]
    rfl
  · intro one
    have noOthers : otherTypes = [] := List.length_eq_zero_iff.mp (by omega)
    subst noOthers
    refine ⟨opResult, _, _, _, parts, inferred.subst, [fromType], toType, acyclic, rfl, ?_, left⟩
    obtain ⟨value, applied⟩ := acyclic.exists_applies fromType
    have solves := (unifies.extends _ rfl).solves
    have same := (unifies.applies_iff _ rfl Extends.refl.solves value).mp applied
    exact .cons (unified_iff.mpr ⟨value, applied, (solves.applies_iff isArgType).mp same⟩) .nil

/-! ### A function of numbers -/

theorem firstSettled_of_name {fresh : ℕ ↪ Id} {env fuel counter operator arg rest}
    (noApplication : ∀ operator args, arg ≠ .expr operator args) :
    FirstSettled fresh env fuel operator (arg :: rest) counter := by
  intro opResult argResult others opType argTypes parts type applied
  obtain ⟨next, last, -, inferredArgs⟩ := parts.inferred
  obtain ⟨_, _, _, same, inferredArg, -⟩ := inferArgs_cons_cases inferredArgs
  cases same
  suffices unchanged : argResult.subst = opResult.subst by
    rwa [unchanged] at applied
  cases arg with
  | sym value => exact inferName_subst inferredArg
  | varr name => exact inferName_subst inferredArg
  | num value =>
    cases inferredArg
    rfl
  | str value =>
    cases inferredArg
    rfl
  | expr operator args => exact absurd rfl (noApplication operator args)
  | grounded op args => cases inferredArg

/-- The environment of one function, from numbers to numbers. -/
def numberFunction : TypeEnv ℕ :=
  .ofList [("f", ⟨[], .typefun (.typecon "Number") (.typecon "Number")⟩)]

/-- What is inferred of the function at some arguments. -/
def inferAt (args : List MettaAtom) : Inference (Inferred ℕ) :=
  infer (.refl ℕ) numberFunction 3 (.expr (.sym "f") args) 0

/-- The application is a number. -/
theorem application_sound_iff_oneArgument :
    (∃ opResult argResults opType argTypes,
        InfersParts (.refl ℕ) numberFunction 3 (.sym "f") [.num 1] 0 opResult argResults opType
            argTypes ∧
          ApplicationSound opType argTypes (.typecon "Number")) ↔
      [MettaAtom.num 1].length = 1 := by
  have returned : inferAt [.num 1] = some (some ⟨.typecon "Number", .empty⟩, 0) := rfl
  exact application_sound_iff returned (firstSettled_of_name fun _ _ same => by cases same)

/-- A function of one number has a type at two arguments. -/
theorem further_argument_accepted : ¬ ∀ (env : TypeEnv ℕ) (fuel counter last : ℕ)
    (operator : MettaAtom) (args : List MettaAtom) (inferred : Inferred ℕ),
      infer (.refl ℕ) env fuel (.expr operator args) counter = some (some inferred, last) →
        ∃ opResult argResults opType argTypes,
          InfersParts (.refl ℕ) env fuel operator args counter opResult argResults opType
              argTypes ∧
            ApplicationSound opType argTypes inferred.type := by
  intro always
  have returned : inferAt [.num 1, .str "x"] = some (some ⟨.typecon "Number", .empty⟩, 0) := rfl
  obtain ⟨_, _, _, _, parts, s, params, result, -, isCurried, each, -⟩ :=
    always _ _ _ _ _ _ _ returned
  have known : InfersParts (.refl ℕ) numberFunction 3 (.sym "f") [.num 1, .str "x"] 0
      ⟨.typefun (.typecon "Number") (.typecon "Number"), .empty⟩
      [⟨.typecon "Number", .empty⟩, ⟨.typecon "String", .empty⟩]
      (.typefun (.typecon "Number") (.typecon "Number"))
      [.typecon "Number", .typecon "String"] :=
    ⟨⟨0, 0, rfl, rfl⟩, .typefun (.typecon _) (.typecon _),
      .cons (.typecon _) (.cons (.typecon _) .nil)⟩
  obtain ⟨-, -, rfl, rfl⟩ := known.unique parts
  cases each with
  | cons _ others =>
    cases others with
    | cons _ _ => cases isCurried

end Senars.Metta
