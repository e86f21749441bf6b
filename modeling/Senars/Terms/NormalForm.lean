/-
This file proves that the normaliser reaches a normal form. One pass over the
registry is enough: it starts from a compound whose arguments are canonical,
and every reducer, once offered the term, stays inapplicable for the rest of the
pass. The second pass changes nothing, so the loop settles long before its
ceiling.

The reason is that the reducers of an n-ary kind only ever look for something
among the arguments, and that all of them but the flattening one rebuild from a
part of the argument list. What was not there before is not there after. The
flattening reducer comes first and meets canonical arguments, so what it splices
in is flat already.
-/

import Senars.Library.Fuel
import Senars.Terms.Reduce

namespace Senars.Terms

open Library

/-! ### The raw constructor, used a second time -/

variable {kind : OperatorKey}

theorem folded_eq_of_length {args others} (same : args.length = others.length)
    (plain : folded kind args = none) : folded kind others = none := by
  match args, others with
  | [], [] => exact plain
  | [_], [_] => cases kind <;> first | rfl | cases plain
  | _ :: _ :: _, _ :: _ :: _ => cases kind <;> rfl

theorem wrapOperationArgs_length (kind : OperatorKey) (args : List Term) :
    (wrapOperationArgs kind args).length = args.length := by
  unfold wrapOperationArgs
  split
  · split <;> rfl
  · rfl

theorem mem_built {collator args arg} (member : arg ∈ if commutativeOps kind = true then
      (canonicalOrder collator).toSorted (wrapOperationArgs kind args)
      else wrapOperationArgs kind args) :
    arg ∈ args ∨ ∃ bare ∈ args, bare.kind? ≠ some .product ∧ arg = .compound .product [bare] := by
  have wrapped : arg ∈ wrapOperationArgs kind args := by
    split at member
    · exact Comparison.mem_toSorted.mp member
    · exact member
  unfold wrapOperationArgs at wrapped
  split at wrapped
  · rename_i op last
    split at wrapped
    · exact Or.inl wrapped
    · rename_i bare
      rcases List.mem_cons.mp wrapped with rfl | inner
      · exact Or.inl List.mem_cons_self
      · exact Or.inr ⟨last, by simp, bare, List.mem_singleton.mp inner⟩
  · exact Or.inl wrapped

theorem wrapOperationArgs_wrapOperationArgs (kind : OperatorKey) (args : List Term) :
    wrapOperationArgs kind (wrapOperationArgs kind args) = wrapOperationArgs kind args := by
  match kind, args with
  | .operation, [op, arg] =>
    by_cases product : arg.kind? = some .product <;> simp [wrapOperationArgs, product]
  | .operation, [] | .operation, [_] | .operation, _ :: _ :: _ :: _ => rfl
  | .inheritance, _ | .similarity, _ | .conjunction, _ | .disjunction, _ | .negation, _
  | .implication, _ | .equivalence, _ | .setExt, _ | .setInt, _ | .sequence, _ | .parallel, _
  | .predictive, _ | .retrospective, _ | .product, _ => rfl

theorem wrapOperationArgs_of_commutative (commutative : commutativeOps kind = true)
    (args : List Term) : wrapOperationArgs kind args = args := by
  unfold wrapOperationArgs
  split
  · exact absurd commutative (by decide)
  · rfl

theorem compoundOf_idempotent {collator args built} (plain : folded kind args = none)
    (done : compoundOf collator kind args = .ok (.compound kind built)) :
    compoundOf collator kind built = .ok (.compound kind built) := by
  rcases compoundOf_cases done with folds | ⟨_, arity, equal⟩
  · exact absurd (plain.symm.trans folds) (by simp)
  have equal := (Term.compound.inj equal).2
  by_cases commutative : commutativeOps kind = true
  · rw [if_pos commutative, wrapOperationArgs_of_commutative commutative] at equal
    have length : args.length = built.length := by
      rw [equal, Comparison.length_toSorted]
    rw [compoundOf_of_unfolded collator (folded_eq_of_length length plain) (length ▸ arity),
      if_pos commutative, wrapOperationArgs_of_commutative commutative]
    have sorted : (canonicalOrder collator).Sorted built := by
      rw [equal]
      exact (canonicalOrder collator).toSorted_sorted args
    rw [sorted.toSorted_eq]
  · rw [if_neg commutative] at equal
    have length : args.length = built.length := by
      rw [equal, wrapOperationArgs_length]
    rw [compoundOf_of_unfolded collator (folded_eq_of_length length plain) (length ▸ arity),
      if_neg commutative, equal, wrapOperationArgs_wrapOperationArgs]

/-! ### Canonical terms -/

section Canonical

variable {Key : Type} [DecidableEq Key] {key : Term → Key} {collator : Collator}

/-- A canonical term: its arguments are canonical, the raw constructor rebuilds it from them,
and no reducer applies to it. -/
inductive Canonical (key : Term → Key) (collator : Collator) : Term → Prop
  | atom (symbol : String) : Canonical key collator (.atom symbol)
  | compound (kind : OperatorKey) (args : List Term)
      (canonical : ∀ arg ∈ args, Canonical key collator arg)
      (rebuilt : compoundOf collator kind args = .ok (.compound kind args))
      (settled : ∀ reducer ∈ termReducers key collator,
        reducer.applies (.compound kind args) = false) :
      Canonical key collator (.compound kind args)

theorem Canonical.args {kind args} (canonical : Canonical key collator (.compound kind args)) :
    ∀ arg ∈ args, Canonical key collator arg := by
  cases canonical with
  | compound _ _ inner => exact inner

theorem Canonical.rebuilt {kind args} (canonical : Canonical key collator (.compound kind args)) :
    compoundOf collator kind args = .ok (.compound kind args) := by
  cases canonical with
  | compound _ _ _ rebuilt => exact rebuilt

theorem Canonical.settled {term} (canonical : Canonical key collator term) :
    ∀ reducer ∈ termReducers key collator, reducer.applies term = false := by
  cases canonical with
  | compound _ _ _ _ settled => exact settled
  | atom symbol =>
    intro reducer member
    simp only [termReducers, List.mem_cons, List.not_mem_nil, or_false] at member
    rcases member with rfl | rfl | rfl | rfl | rfl | rfl | rfl | rfl | rfl | rfl | rfl <;> rfl

variable {term : Term} {kind : OperatorKey} {reducers : List TermReducer} {reducer : TermReducer}

theorem Canonical.of_visited (canonical : Canonical key collator term) :
    ∀ node ∈ visited term, Canonical key collator node := by
  induction term with
  | atom symbol =>
    intro node member
    rw [visited, List.mem_singleton] at member
    rwa [member]
  | compound kind args ih =>
    intro node member
    rw [visited, visitedArgs_eq, List.mem_cons, List.mem_flatMap] at member
    rcases member with rfl | ⟨arg, argMember, inside⟩
    · exact canonical
    · exact ih arg argMember (canonical.args arg argMember) node inside

theorem Canonical.flat {args} (canonical : Canonical key collator (.compound kind args))
    (nary : flattened kind = true) : ∀ arg ∈ args, arg.kind? ≠ some kind := by
  have quiet := canonical.settled (flattenNested collator) (by simp [termReducers])
  simp only [flattenNested, nary, Bool.true_and, List.any_eq_false, beq_iff_eq] at quiet
  exact quiet

/-! ### Offering a term to the registry -/

theorem offer_of_not_applies (quiet : reducer.applies term = false) :
    offer term reducer = .ok term := by
  rw [offer, quiet]
  rfl

theorem offer_of_applies (fires : reducer.applies term = true) :
    offer term reducer = reducer.reduce term := by
  rw [offer, if_pos fires]

theorem pass_of_not_applies (quiet : ∀ reducer ∈ reducers, reducer.applies term = false) :
    pass reducers term = .ok term := by
  induction reducers with
  | nil => rfl
  | cons reducer rest ih =>
    rw [pass, List.foldlM_cons, offer_of_not_applies (quiet reducer List.mem_cons_self)]
    exact ih fun other member => quiet other (List.mem_cons_of_mem _ member)

theorem Canonical.pass {term} (canonical : Canonical key collator term) :
    pass (termReducers key collator) term = .ok term :=
  pass_of_not_applies canonical.settled

/-! ### What the registry preserves -/

theorem pass_preserves {Holds : Term → Prop}
    (step : ∀ reducer ∈ reducers, ∀ term next, Holds term → reducer.applies term = true →
      reducer.reduce term = .ok next → Holds next) :
    ∀ {term next : Term}, Holds term → pass reducers term = .ok next → Holds next := by
  induction reducers with
  | nil => exact fun holds done => Except.ok.inj done ▸ holds
  | cons reducer rest ih =>
    intro term next holds done
    rw [pass, List.foldlM_cons] at done
    cases offered : offer term reducer with
    | error error => exact absurd (offered ▸ done) (by rintro ⟨⟩)
    | ok middle =>
      rw [offered] at done
      refine ih (fun other inside => step other (List.mem_cons_of_mem _ inside))
        ?_ done
      by_cases fires : reducer.applies term = true
      · exact step reducer List.mem_cons_self term middle holds fires
          (offer_of_applies fires ▸ offered)
      · rw [offer_of_not_applies (Bool.not_eq_true _ ▸ fires)] at offered
        exact Except.ok.inj offered ▸ holds

theorem settle_preserves {Holds : Term → Prop}
    (step : ∀ reducer ∈ reducers, ∀ term next, Holds term → reducer.applies term = true →
      reducer.reduce term = .ok next → Holds next) {original passes} :
    ∀ {term normal : Term}, Holds term → settle reducers original passes term = .ok normal →
      Holds normal := by
  induction passes with
  | zero => exact fun _ done => absurd done (by rintro ⟨⟩)
  | succ passes ih =>
    intro term normal holds done
    obtain ⟨next, passed, goesOn⟩ := bind_eq_ok.mp done
    split at goesOn
    · exact Except.ok.inj goesOn ▸ holds
    · exact ih (pass_preserves step holds passed) goesOn

/-! ### What a part of an argument list inherits -/

theorem applies_antitone (nary : naryOps kind = true) {args part} (inside : part.Subperm args)
    (member : reducer ∈ termReducers key collator)
    (quiet : reducer.applies (.compound kind args) = false) :
    reducer.applies (.compound kind part) = false := by
  have subset : ∀ arg ∈ part, arg ∈ args := inside.subset
  have notNegation : kind ≠ .negation := by
    rintro rfl
    exact absurd nary (by decide)
  have pair : hasNegatedPair key (.compound kind args) = false →
      hasNegatedPair key (.compound kind part) = false := by
    intro none
    rw [hasNegatedPair, List.any_eq_false] at none ⊢
    intro arg argMember found
    refine none arg (subset arg argMember) ?_
    split at found
    · rw [List.contains_iff_mem, List.mem_map] at found ⊢
      obtain ⟨operand, operandMember, same⟩ := found
      exact ⟨operand, subset operand operandMember, same⟩
    · cases found
  have absorb : ∀ (id : String) (absorbed : OperatorKey) (symbol : BoolSymbol) (absorbing : Bool),
      (boolAbsorb collator id absorbed symbol absorbing).applies (.compound kind args) = false →
      (boolAbsorb collator id absorbed symbol absorbing).applies (.compound kind part) = false := by
    intro name absorbed symbol absorbing none
    simp only [boolAbsorb, kind?_compound, getArgs_compound, Bool.and_eq_false_iff,
      List.any_eq_false] at none ⊢
    exact none.imp id fun absent arg argMember => absent arg (subset arg argMember)
  simp only [termReducers, List.mem_cons, List.not_mem_nil, or_false] at member
  rcases member with rfl | rfl | rfl | rfl | rfl | rfl | rfl | rfl | rfl | rfl | rfl
  · simp only [flattenNested, Bool.and_eq_false_iff, List.any_eq_false] at quiet ⊢
    exact quiet.imp id fun flat arg argMember => flat arg (subset arg argMember)
  · simp only [dedupeArgs, hasRepeatedArgs, getArgs_compound, Bool.and_eq_false_iff,
      Bool.not_eq_false'] at quiet ⊢
    refine quiet.imp id fun unique => ?_
    obtain ⟨middle, same, below⟩ := inside
    exact decide_eq_true
      ((same.map key).nodup_iff.mp ((of_decide_eq_true unique).sublist (below.map key)))
  · simp only [conjunctionContradiction, kind?_compound, Bool.and_eq_false_iff] at quiet ⊢
    exact quiet.imp id pair
  · simp only [disjunctionTautology, kind?_compound, Bool.and_eq_false_iff] at quiet ⊢
    exact quiet.imp id pair
  · cases kind <;> first | rfl | exact absurd rfl notNegation
  · cases kind <;> first | rfl | exact absurd rfl notNegation
  · cases kind <;> first | rfl | exact absurd rfl notNegation
  · exact absorb _ _ _ _ quiet
  · exact absorb _ _ _ _ quiet
  · exact absorb _ _ _ _ quiet
  · exact absorb _ _ _ _ quiet

/-! ### The stages of a pass -/

/-- A term in the middle of a pass: it is canonical already, or it is a rebuilt compound with
canonical arguments to which none of the reducers offered so far applies. -/
inductive Stage (key : Term → Key) (collator : Collator) (offered : List TermReducer) :
    Term → Prop
  | done (term : Term) (canonical : Canonical key collator term) :
      Stage key collator offered term
  | underway (kind : OperatorKey) (args : List Term)
      (canonical : ∀ arg ∈ args, Canonical key collator arg)
      (rebuilt : compoundOf collator kind args = .ok (.compound kind args))
      (quiet : ∀ reducer ∈ offered, reducer.applies (.compound kind args) = false) :
      Stage key collator offered (.compound kind args)

theorem Stage.canonical {offered term} (stage : Stage key collator offered term)
    (all : ∀ reducer ∈ termReducers key collator, reducer ∈ offered) :
    Canonical key collator term := by
  cases stage with
  | done _ canonical => exact canonical
  | underway kind args canonical rebuilt quiet =>
    exact .compound kind args canonical rebuilt fun reducer member =>
      quiet reducer (all reducer member)

theorem folded_canonical {args} (canonical : ∀ arg ∈ args, Canonical key collator arg)
    (folds : folded kind args = some term) : Canonical key collator term := by
  unfold folded at folds
  split at folds
  · rw [← Option.some.inj folds]
    exact .atom _
  · rw [← Option.some.inj folds]
    exact canonical _ List.mem_cons_self
  · rw [← Option.some.inj folds]
    exact canonical _ List.mem_cons_self
  · rw [← Option.some.inj folds]
    exact canonical _ List.mem_cons_self
  · cases folds

theorem wrapped_canonical {arg} (canonical : Canonical key collator arg)
    (bare : arg.kind? ≠ some .product) : Canonical key collator (.compound .product [arg]) := by
  refine .compound .product [arg] (by simpa using canonical) rfl fun reducer member => ?_
  simp only [termReducers, List.mem_cons, List.not_mem_nil, or_false] at member
  rcases member with rfl | rfl | rfl | rfl | rfl | rfl | rfl | rfl | rfl | rfl | rfl
  · simpa [flattenNested] using fun _ => bare
  all_goals rfl

theorem compoundOf_stage {args} (canonical : ∀ arg ∈ args, Canonical key collator arg)
    (built : compoundOf collator kind args = .ok term) : Stage key collator [] term := by
  rcases compoundOf_cases built with folds | ⟨plain, -, equal⟩
  · exact .done term (folded_canonical canonical folds)
  subst equal
  refine .underway kind _ (fun arg member => ?_) (compoundOf_idempotent plain built) (by simp)
  rcases mem_built member with given | ⟨bare, given, notProduct, rfl⟩
  · exact canonical arg given
  · exact wrapped_canonical (canonical bare given) notProduct

theorem arityError_of_nary (nary : naryOps kind = true) (got : Nat) :
    arityError kind got = none := by
  cases kind <;> first | rfl | exact absurd nary (by decide)

theorem rebuild_stage (nary : naryOps kind = true) {args}
    (canonical : ∀ arg ∈ args, Canonical key collator arg) {offered}
    (registered : ∀ reducer ∈ offered, reducer ∈ termReducers key collator)
    (quiet : ∀ reducer ∈ offered, reducer.applies (.compound kind args) = false) :
    ∃ term, compoundOf collator kind args = .ok term ∧ Stage key collator offered term := by
  cases folds : folded kind args with
  | some term =>
    exact ⟨term, compoundOf_of_folded collator folds,
      .done term (folded_canonical canonical folds)⟩
  | none =>
    have built := compoundOf_of_unfolded collator folds (arityError_of_nary nary _)
    refine ⟨_, built, ?_⟩
    cases compoundOf_stage canonical built with
    | done _ whole => exact .done _ whole
    | underway _ _ inner rebuilt _ =>
      refine .underway kind _ inner rebuilt fun reducer member => ?_
      refine applies_antitone nary ?_ (registered reducer member) (quiet reducer member)
      have unwrapped : wrapOperationArgs kind args = args := by
        cases kind <;> first | rfl | exact absurd nary (by decide)
      rw [unwrapped]
      split
      · exact ((canonicalOrder collator).toSorted_perm args).subperm
      · exact List.Subperm.refl args

/-! ### One offer -/

theorem negation_args_of_rebuilt {args} (rebuilt : compoundOf collator .negation args = .ok term) :
    ∃ operand, args = [operand] := by
  rcases compoundOf_cases rebuilt with folds | ⟨_, arity, _⟩
  · exact absurd folds (by simp [folded])
  · match args, arity with
    | [operand], _ => exact ⟨operand, rfl⟩

theorem Canonical.negation_args {args : List Term}
    (canonical : Canonical key collator (.compound .negation args)) :
    ∃ operand, args = [operand] :=
  negation_args_of_rebuilt canonical.rebuilt

theorem spliced_canonical (nary : flattened kind = true) {args}
    (canonical : ∀ arg ∈ args, Canonical key collator arg) :
    ∀ arg ∈ spliced kind args, Canonical key collator arg ∧ arg.kind? ≠ some kind := by
  intro arg member
  obtain ⟨outer, outerMember, inside⟩ := List.mem_flatMap.mp member
  split at inside
  · rename_i same
    cases outer with
    | atom symbol => cases same
    | compound outerKind outerArgs =>
      obtain rfl : outerKind = kind := Option.some.inj same
      have whole := canonical _ outerMember
      exact ⟨whole.args arg inside, whole.flat nary arg inside⟩
  · rename_i different
    rw [List.mem_singleton] at inside
    subst inside
    exact ⟨canonical arg outerMember, different⟩

theorem offer_stage {offered} (stage : Stage key collator offered term)
    (registered : ∀ reducer ∈ offered, reducer ∈ termReducers key collator)
    (member : reducer ∈ termReducers key collator)
    (first : reducer.id = "flatten-nested" → offered = []) :
    ∃ next, offer term reducer = .ok next ∧ Stage key collator (reducer :: offered) next := by
  cases stage with
  | done _ canonical =>
    exact ⟨term, offer_of_not_applies (canonical.settled reducer member), .done term canonical⟩
  | underway kind args canonical rebuilt quiet =>
    by_cases fires : reducer.applies (.compound kind args) = true
    swap
    · have declined := Bool.not_eq_true _ ▸ fires
      refine ⟨_, offer_of_not_applies declined, .underway kind args canonical rebuilt ?_⟩
      exact List.forall_mem_cons.mpr ⟨declined, quiet⟩
    rw [offer_of_applies fires]
    -- A part of the arguments keeps every earlier reducer quiet.
    have part : naryOps kind = true → ∀ rest : List Term, rest.Sublist args →
        reducer.applies (.compound kind rest) = false →
        ∃ next, compoundOf collator kind rest = .ok next ∧
          Stage key collator (reducer :: offered) next := by
      intro nary rest below cleared
      refine rebuild_stage nary (fun arg inside => canonical arg (below.subset inside))
        (List.forall_mem_cons.mpr ⟨member, registered⟩)
        (List.forall_mem_cons.mpr ⟨cleared, fun earlier old => ?_⟩)
      exact applies_antitone nary below.subperm (registered earlier old) (quiet earlier old)
    have absorb : ∀ (id : String) (absorbed : OperatorKey) (symbol : BoolSymbol)
        (absorbing : Bool), naryOps absorbed = true →
        reducer = boolAbsorb collator id absorbed symbol absorbing →
        ∃ next, reducer.reduce (.compound kind args) = .ok next ∧
          Stage key collator (reducer :: offered) next := by
      intro id absorbed symbol absorbing nary same
      subst same
      simp only [boolAbsorb, kind?_compound, getArgs_compound, Bool.and_eq_true, beq_iff_eq,
        Option.some.injEq] at fires
      cases absorbing with
      | true =>
        refine ⟨.atom symbol.text, ?_, .done _ (.atom _)⟩
        cases symbol <;> rfl
      | false =>
        obtain ⟨rfl, -⟩ := fires
        refine part nary (args.filter fun arg => !symbol.isAtomOf arg) List.filter_sublist ?_
        simp only [boolAbsorb, getArgs_compound, Bool.and_eq_false_iff, List.any_eq_false,
          List.mem_filter, Bool.not_eq_true', Bool.not_eq_true]
        exact Or.inr fun arg kept => kept.2
    simp only [termReducers, List.mem_cons, List.not_mem_nil, or_false] at member
    rcases member with same | same | same | same | same | same | same | same | same | same | same
    · subst same
      simp only [flattenNested, Bool.and_eq_true] at fires
      rw [first rfl]
      refine rebuild_stage fires.1
        (fun arg inside => (spliced_canonical fires.1 canonical arg inside).1)
        (by simp [termReducers]) (List.forall_mem_singleton.mpr ?_)
      simp only [flattenNested, Bool.and_eq_false_iff, List.any_eq_false, beq_iff_eq]
      exact Or.inr fun arg inside => (spliced_canonical fires.1 canonical arg inside).2
    · subst same
      simp only [dedupeArgs, deduped, Bool.and_eq_true] at fires
      refine part fires.1.1 _ (uniqueByFrom_sublist key [] args) ?_
      simp only [dedupeArgs, hasRepeatedArgs, getArgs_compound, Bool.and_eq_false_iff,
        Bool.not_eq_false']
      exact Or.inr (decide_eq_true (uniqueBy_nodup key args))
    · subst same
      exact ⟨falseAtom, rfl, .done _ (.atom _)⟩
    · subst same
      exact ⟨trueAtom, rfl, .done _ (.atom _)⟩
    · subst same
      simp only [doubleNegation] at fires
      split at fires
      · rename_i inner rest equal
        obtain ⟨rfl, rfl⟩ := Term.compound.inj equal
        have negated := canonical _ List.mem_cons_self
        obtain ⟨operand, rfl⟩ := negated.negation_args
        exact ⟨operand, rfl, .done _ (negated.args operand List.mem_cons_self)⟩
      · cases fires
    · subst same
      exact ⟨falseAtom, rfl, .done _ (.atom _)⟩
    · subst same
      exact ⟨trueAtom, rfl, .done _ (.atom _)⟩
    · exact absorb _ _ _ _ rfl same
    · exact absorb _ _ _ _ rfl same
    · exact absorb _ _ _ _ rfl same
    · exact absorb _ _ _ _ rfl same

/-! ### The pass loop -/

theorem foldlM_offer_stage (member : ∀ reducer ∈ reducers, reducer ∈ termReducers key collator)
    (later : ∀ reducer ∈ reducers, reducer.id ≠ "flatten-nested") :
    ∀ {offered : List TermReducer} {term : Term}, Stage key collator offered term →
      (∀ reducer ∈ offered, reducer ∈ termReducers key collator) →
      ∃ next, reducers.foldlM offer term = .ok next ∧
        Stage key collator (reducers.reverse ++ offered) next := by
  induction reducers with
  | nil =>
    intro offered term stage _
    exact ⟨term, rfl, stage⟩
  | cons reducer rest ih =>
    intro offered term stage registered
    obtain ⟨middle, offeredOk, middleStage⟩ := offer_stage stage registered
      (member reducer List.mem_cons_self)
      fun same => absurd same (later reducer List.mem_cons_self)
    obtain ⟨next, restOk, nextStage⟩ := ih
      (fun other inside => member other (List.mem_cons_of_mem _ inside))
      (fun other inside => later other (List.mem_cons_of_mem _ inside)) middleStage
      (List.forall_mem_cons.mpr ⟨member reducer List.mem_cons_self, registered⟩)
    refine ⟨next, ?_, ?_⟩
    · rw [List.foldlM_cons, offeredOk]
      exact restOk
    · rwa [List.reverse_cons, List.append_assoc, List.singleton_append]

theorem pass_stage (stage : Stage key collator [] term) :
    ∃ next, pass (termReducers key collator) term = .ok next ∧ Canonical key collator next := by
  have flatten : flattenNested collator ∈ termReducers key collator := by simp [termReducers]
  have later : ∀ reducer ∈ (termReducers key collator).tail, reducer.id ≠ "flatten-nested" := by
    simp only [termReducers, List.tail_cons, List.forall_mem_cons]
    refine ⟨?_, ?_, ?_, ?_, ?_, ?_, ?_, ?_, ?_, ?_, by simp⟩ <;> exact of_decide_eq_true rfl
  obtain ⟨middle, flattenOk, middleStage⟩ := offer_stage stage (by simp) flatten fun _ => rfl
  obtain ⟨next, restOk, nextStage⟩ := foldlM_offer_stage
    (fun _ inside => List.mem_of_mem_tail inside) later middleStage
    (List.forall_mem_singleton.mpr flatten)
  refine ⟨next, ?_, nextStage.canonical fun reducer member => ?_⟩
  · rw [pass, termReducers, List.foldlM_cons, flattenOk]
    exact restOk
  · rw [List.mem_append, List.mem_reverse]
    rcases List.mem_cons.mp member with same | tail
    · exact Or.inr (same ▸ List.mem_cons_self)
    · exact Or.inl tail

theorem settle_stage (stage : Stage key collator [] term) (original : Term) :
    ∃ normal, settle (termReducers key collator) original maxPasses term = .ok normal ∧
      Canonical key collator normal := by
  obtain ⟨next, passOk, canonical⟩ := pass_stage stage
  refine ⟨next, ?_, canonical⟩
  by_cases same : next = term
  · simp [maxPasses, settle, passOk, same, bind, Except.bind]
  · simp [maxPasses, settle, passOk, same, canonical.pass, bind, Except.bind]

/-! ### The recursion -/

theorem canonicalizeArgs_forall₂ {args normals}
    (done : canonicalizeArgs reducers collator args = .ok normals) :
    List.Forall₂ (fun arg normal => canonicalizeRecursive reducers collator arg = .ok normal)
      args normals := by
  induction args generalizing normals with
  | nil =>
    rw [canonicalizeArgs, Except.ok.injEq] at done
    exact done ▸ .nil
  | cons arg rest ih =>
    obtain ⟨normal, argDone, restRun⟩ := bind_eq_ok.mp done
    obtain ⟨others, restDone, same⟩ := bind_eq_ok.mp restRun
    exact Except.ok.inj same ▸ .cons argDone (ih restDone)

theorem canonicalizeArgs_of_forall₂ {args normals} (each : List.Forall₂ (fun arg normal =>
      canonicalizeRecursive reducers collator arg = .ok normal) args normals) :
    canonicalizeArgs reducers collator args = .ok normals := by
  induction each with
  | nil => rfl
  | cons argDone _ restDone => simp only [canonicalizeArgs, argDone, restDone, bind, Except.bind]

theorem canonicalizeArgs_error {args error}
    (failed : canonicalizeArgs reducers collator args = .error error) :
    ∃ arg ∈ args, canonicalizeRecursive reducers collator arg = .error error := by
  induction args with
  | nil => cases failed
  | cons arg rest ih =>
    rcases bind_eq_error.mp failed with argFailed | ⟨normal, _, later⟩
    · exact ⟨arg, List.mem_cons_self, argFailed⟩
    · rcases bind_eq_error.mp later with restFailed | ⟨others, _, none⟩
      · obtain ⟨other, member, otherFailed⟩ := ih restFailed
        exact ⟨other, List.mem_cons_of_mem _ member, otherFailed⟩
      · cases none

theorem canonicalTerm_compound {args normal} :
    canonicalTerm key collator (.compound kind args) = .ok normal ↔
      ∃ normals current,
        List.Forall₂ (fun arg inner => canonicalTerm key collator arg = .ok inner) args normals ∧
        compoundOf collator kind normals = .ok current ∧
        settle (termReducers key collator) (.compound kind args) maxPasses current =
          .ok normal := by
  rw [canonicalTerm, canonicalizeRecursive]
  constructor
  · intro done
    obtain ⟨normals, argsDone, rebuilt⟩ := bind_eq_ok.mp done
    obtain ⟨current, built, settled⟩ := bind_eq_ok.mp rebuilt
    exact ⟨normals, current, canonicalizeArgs_forall₂ argsDone, built, settled⟩
  · rintro ⟨normals, current, each, built, settled⟩
    simp only [canonicalizeArgs_of_forall₂ each, built, bind, Except.bind, settled]

theorem canonicalTerm_canonical {normal} (done : canonicalTerm key collator term = .ok normal) :
    Canonical key collator normal := by
  induction term generalizing normal with
  | atom symbol => exact Except.ok.inj done ▸ .atom symbol
  | compound kind args ih =>
    obtain ⟨normals, current, each, built, settled⟩ := canonicalTerm_compound.mp done
    have canonical : ∀ inner ∈ normals, Canonical key collator inner := by
      intro inner member
      obtain ⟨arg, argMember, argDone⟩ := exists_left_of_forall₂ each member
      exact ih arg argMember argDone
    obtain ⟨found, foundSettled, foundCanonical⟩ :=
      settle_stage (compoundOf_stage canonical built) (.compound kind args)
    rw [foundSettled, Except.ok.injEq] at settled
    exact settled ▸ foundCanonical

theorem createCompound_canonical {args} (built : createCompound key collator kind args = .ok term) :
    Canonical key collator term := by
  rw [createCompound] at built
  cases raw : compoundOf collator kind args with
  | error error => exact absurd (raw ▸ built) (by rintro ⟨⟩)
  | ok middle =>
    rw [raw] at built
    exact canonicalTerm_canonical built

theorem Canonical.canonicalTerm_eq (canonical : Canonical key collator term) :
    canonicalTerm key collator term = .ok term := by
  induction term with
  | atom symbol => rfl
  | compound kind args ih =>
    refine canonicalTerm_compound.mpr ⟨args, .compound kind args, ?_, canonical.rebuilt, ?_⟩
    · exact List.forall₂_same.mpr fun arg member =>
        ih arg member (canonical.args arg member)
    · simp [maxPasses, settle, canonical.pass, bind, Except.bind]

/-! ### Which terms have a canonical form -/

/-- Every compound of the term has a number of arguments the constructor accepts. -/
def ArityChecked (term : Term) : Prop :=
  ∀ kind args, .compound kind args ∈ visited term → arityError kind args.length = none

theorem ArityChecked.args {kind args} (checked : ArityChecked (.compound kind args)) :
    ∀ arg ∈ args, ArityChecked arg := by
  intro arg member inner innerArgs inside
  refine checked inner innerArgs ?_
  rw [visited, visitedArgs_eq]
  exact List.mem_cons_of_mem _ (List.mem_flatMap.mpr ⟨arg, member, inside⟩)

theorem settle_ok {args current} (canonical : ∀ arg ∈ args, Canonical key collator arg)
    (built : compoundOf collator kind args = .ok current) (original : Term) :
    ∃ normal, settle (termReducers key collator) original maxPasses current = .ok normal ∧
      Canonical key collator normal :=
  settle_stage (compoundOf_stage canonical built) original

theorem ArityChecked.canonicalTerm_ok (checked : ArityChecked term) :
    ∃ normal, canonicalTerm key collator term = .ok normal := by
  induction term with
  | atom symbol => exact ⟨.atom symbol, rfl⟩
  | compound kind args ih =>
    obtain ⟨normals, each⟩ := exists_forall₂_of_forall_mem fun arg member =>
      ih arg member (checked.args arg member)
    have canonical : ∀ inner ∈ normals, Canonical key collator inner := by
      intro inner member
      obtain ⟨arg, _, argDone⟩ := exists_left_of_forall₂ each member
      exact canonicalTerm_canonical argDone
    have arity : arityError kind normals.length = none := by
      rw [← each.length_eq]
      exact checked kind args (by simp [visited])
    have built : ∃ current, compoundOf collator kind normals = .ok current := by
      cases folds : folded kind normals with
      | some term => exact ⟨term, compoundOf_of_folded collator folds⟩
      | none => exact ⟨_, compoundOf_of_unfolded collator folds arity⟩
    obtain ⟨current, built⟩ := built
    obtain ⟨normal, settled, _⟩ := settle_ok canonical built (.compound kind args)
    exact ⟨normal, canonicalTerm_compound.mpr ⟨normals, current, each, built, settled⟩⟩

theorem createCompound_ok {args} (canonical : ∀ arg ∈ args, Canonical key collator arg)
    (built : ∃ current, compoundOf collator kind args = .ok current) :
    ∃ term, createCompound key collator kind args = .ok term ∧ Canonical key collator term := by
  obtain ⟨current, built⟩ := built
  simp only [createCompound, built, bind, Except.bind]
  have stage := compoundOf_stage canonical built
  cases stage with
  | done _ canonicalCurrent => exact ⟨current, canonicalCurrent.canonicalTerm_eq, canonicalCurrent⟩
  | underway inner innerArgs canonicalArgs rebuilt =>
    obtain ⟨normal, settled, canonicalNormal⟩ :=
      settle_ok canonicalArgs rebuilt (.compound inner innerArgs)
    refine ⟨normal, canonicalTerm_compound.mpr ⟨innerArgs, _, ?_, rebuilt, settled⟩,
      canonicalNormal⟩
    exact List.forall₂_same.mpr fun arg member => (canonicalArgs arg member).canonicalTerm_eq

theorem createCompound_preserves (Holds : Term → Prop) {args}
    (canonical : ∀ arg ∈ args, Canonical key collator arg)
    (start : ∀ current, compoundOf collator kind args = .ok current → Holds current)
    (step : ∀ reducer ∈ termReducers key collator, ∀ current next, Holds current →
      reducer.applies current = true → reducer.reduce current = .ok next → Holds next)
    (built : createCompound key collator kind args = .ok term) : Holds term := by
  rw [createCompound] at built
  cases raw : compoundOf collator kind args with
  | error error => exact absurd (raw ▸ built) (by rintro ⟨⟩)
  | ok current =>
    rw [raw] at built
    have done : canonicalTerm key collator current = .ok term := built
    cases compoundOf_stage canonical raw with
    | done _ whole =>
      rw [whole.canonicalTerm_eq] at done
      exact Except.ok.inj done ▸ start current raw
    | underway inner innerArgs innerCanonical rebuilt _ =>
      obtain ⟨normals, next, each, nextBuilt, settled⟩ := canonicalTerm_compound.mp done
      have whole : List.Forall₂ (fun arg inner => canonicalTerm key collator arg = .ok inner)
          innerArgs innerArgs :=
        List.forall₂_same.mpr fun arg member => (innerCanonical arg member).canonicalTerm_eq
      obtain rfl : innerArgs = normals := Except.ok.inj
        ((canonicalizeArgs_of_forall₂ whole).symm.trans (canonicalizeArgs_of_forall₂ each))
      cases rebuilt.symm.trans nextBuilt
      exact settle_preserves step (start _ raw) settled

theorem Canonical.createCompound_eq {args}
    (canonical : Canonical key collator (.compound kind args)) :
    createCompound key collator kind args = .ok (.compound kind args) := by
  rw [createCompound, canonical.rebuilt]
  exact canonical.canonicalTerm_eq

theorem createCompound_product {args} (canonical : ∀ arg ∈ args, Canonical key collator arg) :
    createCompound key collator .product args =
      .ok (.compound .product (spliced .product args)) := by
  have raw : ∀ terms : List Term,
      compoundOf collator .product terms = .ok (.compound .product terms) := by
    intro terms
    cases terms <;> rfl
  obtain ⟨term, built, canonicalTerm⟩ := createCompound_ok canonical ⟨_, raw args⟩
  let Holds : Term → Prop := fun term =>
    term = .compound .product args ∨ term = .compound .product (spliced .product args)
  have flat : ∀ arg ∈ spliced .product args, arg.kind? ≠ some .product :=
    fun arg member => (spliced_canonical rfl canonical arg member).2
  have step : ∀ reducer ∈ termReducers key collator, ∀ term next, Holds term →
      reducer.applies term = true → reducer.reduce term = .ok next → Holds next := by
    intro reducer member term next holds fires reduced
    -- Only the flattening reducer fires on a product, and not on a flat one.
    simp only [termReducers, List.mem_cons, List.not_mem_nil, or_false] at member
    rcases member with rfl | rfl | rfl | rfl | rfl | rfl | rfl | rfl | rfl | rfl | rfl
    case inl =>
      rcases holds with rfl | rfl
      · exact Or.inr (Except.ok.inj ((raw _).symm.trans reduced)).symm
      · simp only [flattenNested, Bool.and_eq_true, List.any_eq_true, beq_iff_eq] at fires
        obtain ⟨-, arg, inside, product⟩ := fires
        exact absurd product (flat arg inside)
    all_goals rcases holds with rfl | rfl <;> cases fires
  rw [built]
  have start : ∀ current, compoundOf collator .product args = .ok current → Holds current :=
    fun current same => Or.inl (Except.ok.inj ((raw args).symm.trans same)).symm
  rcases createCompound_preserves Holds canonical start step built with rfl | rfl
  · -- A canonical product holds no product, so splicing leaves its arguments.
    have apart : spliced .product args = args := by
      have each : ∀ arg ∈ args, (if arg.kind? = some .product then getArgs arg else [arg]) =
          [arg] := fun arg member => if_neg (canonicalTerm.flat rfl arg member)
      rw [spliced, List.flatMap_congr each, List.flatMap_singleton']
    rw [apart]
  · rfl

theorem Canonical.compoundOf_ok {args others}
    (canonical : Canonical key collator (.compound kind args))
    (length : others.length = args.length) :
    ∃ current, compoundOf collator kind others = .ok current := by
  cases folds : folded kind others with
  | some term => exact ⟨term, compoundOf_of_folded collator folds⟩
  | none =>
    rcases compoundOf_cases canonical.rebuilt with folded | ⟨-, arity, -⟩
    · exact absurd ((folded_eq_of_length length folds).symm.trans folded) (by simp)
    · exact ⟨_, compoundOf_of_unfolded collator folds (length ▸ arity)⟩

theorem arityError_ne_noFixedPoint (kind : OperatorKey) (got passes : Nat) (term : Term) :
    arityError kind got ≠ some (.noFixedPoint passes term) := by
  unfold arityError
  split
  · split <;> simp
  · split <;> simp
  · split <;> simp
  · simp

theorem compoundOf_ne_noFixedPoint (kind : OperatorKey) (args : List Term) (passes : Nat)
    (term : Term) : compoundOf collator kind args ≠ .error (.noFixedPoint passes term) := by
  intro failed
  unfold compoundOf at failed
  split at failed
  · cases failed
  split at failed
  · rename_i wrong
    rw [Except.error.inj failed] at wrong
    exact arityError_ne_noFixedPoint kind args.length passes term wrong
  · cases failed

theorem canonicalTerm_ne_noFixedPoint (term : Term) (passes : Nat) (original : Term) :
    canonicalTerm key collator term ≠ .error (.noFixedPoint passes original) := by
  induction term with
  | atom symbol => simp [canonicalTerm, canonicalizeRecursive]
  | compound kind args ih =>
    intro failed
    rcases bind_eq_error.mp failed with argsFailed | ⟨normals, argsDone, rebuilt⟩
    · obtain ⟨arg, member, argFailed⟩ := canonicalizeArgs_error argsFailed
      exact ih arg member argFailed
    · have canonical : ∀ inner ∈ normals, Canonical key collator inner := by
        intro inner member
        obtain ⟨arg, _, argDone⟩ :=
          exists_left_of_forall₂ (canonicalizeArgs_forall₂ argsDone) member
        exact canonicalTerm_canonical argDone
      rcases bind_eq_error.mp rebuilt with unbuilt | ⟨current, built, unsettled⟩
      · exact compoundOf_ne_noFixedPoint kind normals passes original unbuilt
      · obtain ⟨normal, settled, _⟩ := settle_ok canonical built (.compound kind args)
        cases settled.symm.trans unsettled

end Canonical

/-! ### The normal form -/

/-- Normalising never hits the ceiling on passes, and fails on no term whose arities the
constructor accepts. The form it gives has no node a reducer applies to, and is its own
canonical form. -/
theorem canonicalTerm_normalForm (collator : Collator) (term : Term) :
    (∀ passes original, canonicalTerm id collator term ≠ .error (.noFixedPoint passes original)) ∧
      (ArityChecked term → ∃ normal, canonicalTerm id collator term = .ok normal) ∧
      ∀ normal, canonicalTerm id collator term = .ok normal →
        (∀ node ∈ visited normal, ∀ reducer ∈ termReducers id collator,
          reducer.applies node = false) ∧
        canonicalTerm id collator normal = .ok normal := by
  refine ⟨canonicalTerm_ne_noFixedPoint term, fun checked => checked.canonicalTerm_ok, ?_⟩
  intro normal done
  have canonical := canonicalTerm_canonical done
  exact ⟨fun node inside => (canonical.of_visited node inside).settled, canonical.canonicalTerm_eq⟩

/-- A conjunction of `a`, `--(--a)` and `TRUE` normalises to `a`. -/
theorem canonicalTerm_normalForm_conjunction :
    (∃ normal, canonicalTerm id codePointCollator (.compound .conjunction
        [.atom "a", .compound .negation [.compound .negation [.atom "a"]], trueAtom]) =
          .ok normal) ∧
      canonicalTerm id codePointCollator (.atom "a") = .ok (.atom "a") := by
  refine ⟨(canonicalTerm_normalForm codePointCollator _).2.1 ?_,
    ((canonicalTerm_normalForm codePointCollator (.compound .conjunction
      [.atom "a", .compound .negation [.compound .negation [.atom "a"]], trueAtom])).2.2
        (.atom "a") (by decide)).2⟩
  intro kind args inside
  simp only [visited, visitedArgs, trueAtom, List.mem_cons, List.mem_append, List.not_mem_nil,
    or_false, reduceCtorEq, false_or, Term.compound.injEq] at inside
  rcases inside with ⟨rfl, rfl⟩ | ⟨rfl, rfl⟩ | ⟨rfl, rfl⟩ <;> rfl

end Senars.Terms
