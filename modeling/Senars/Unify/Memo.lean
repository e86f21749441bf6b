/-
This file is about the memo of a unifier. A walk reads its bindings only through
their values, so calls with the same nodes, the same flag and the same bindings
have the same walk, and replaying what a walk added on the caller's map gives
the walk's own bindings. A call whose key the memo does not hold for another
call's sake is therefore answered as a unifier without a memo would answer it,
and so is every call of a sequence of such calls.
-/

import Senars.Unify.Walk

namespace Senars.Unify

open Library

section Memo

variable {Node Failure : Type} {ast : UnifierDialect Node Failure}
  {identical : Node → Node → Bool}

/-! ### A walk reads its bindings through their values -/

/-- Two walks have the same bindings and added the same ones. -/
def SameWalk (first second : Walk Node) : Prop :=
  first.work.SameBindings second.work ∧ first.added = second.added

theorem deref_congr {first second} (same : first.SameBindings second) (remaining : Nat)
    (node : Node) : deref ast first remaining node = deref ast second remaining node := by
  induction remaining generalizing node with
  | zero => rfl
  | succ remaining ih =>
    simp only [deref]
    cases ast.variableName node with
    | none => rfl
    | some name =>
      simp only [same name]
      cases second.get name with
      | none => rfl
      | some bound => exact ih bound

theorem occurs_congr {first second} (same : first.SameBindings second) (name : String)
    (remaining : Nat) (node : Node) :
    occurs ast name first remaining node = occurs ast name second remaining node := by
  induction remaining generalizing node with
  | zero => rfl
  | succ remaining ih =>
    simp only [occurs]
    cases ast.variableName node with
    | none => exact congrArg (ast.children node).any (funext ih)
    | some other =>
      simp only [same other]
      cases second.get other with
      | none => rfl
      | some bound => simp only [ih bound]

theorem bind_congr {first second} (same : SameWalk first second) (name : String) (value : Node)
    (occursCheck : Bool) :
    Option.Rel SameWalk (bind ast name value occursCheck first)
      (bind ast name value occursCheck second) := by
  simp only [bind, occurs_congr same.1]
  split
  · exact .none
  · exact .some ⟨same.1.set name value, by rw [same.2]⟩

theorem pairwise_congr {step} (each : ∀ left right first second, SameWalk first second →
      Option.Rel SameWalk (step left right first) (step left right second))
    (lefts rights : List Node) {first second} (same : SameWalk first second) :
    Option.Rel SameWalk (pairwise step lefts rights first) (pairwise step lefts rights second) := by
  induction lefts generalizing rights first second with
  | nil =>
    exact .some same
  | cons left lefts ih =>
    cases rights with
    | nil =>
      exact .some same
    | cons right rights =>
      have here := each left right first second same
      rw [pairwise, pairwise]
      cases firstStep : step left right first with
      | none =>
        cases secondStep : step left right second with
        | none => exact .none
        | some next => rw [firstStep, secondStep] at here; cases here
      | some next =>
        cases secondStep : step left right second with
        | none => rw [firstStep, secondStep] at here; cases here
        | some other =>
          rw [firstStep, secondStep] at here
          cases here with
          | some nextSame => exact ih rights nextSame

theorem descend_congr (occursCheck : Bool) (remaining : Nat) :
    ∀ (a b : Node) (first second : Walk Node), SameWalk first second →
      Option.Rel SameWalk (descend ast identical occursCheck remaining a b first)
        (descend ast identical occursCheck remaining a b second) := by
  induction remaining with
  | zero => exact fun _ _ _ _ _ => .none
  | succ remaining ih =>
    intro a b first second same
    simp only [descend, deref_congr same.1]
    split
    · exact .some same
    split
    · split
      · exact .some same
      · exact bind_congr same _ _ _
    · exact bind_congr same _ _ _
    · split
      · exact .none
      split
      · exact .none
      split
      · split
        · exact .some same
        · exact .none
      · exact pairwise_congr ih _ _ same

/-! ### What a walk added is what it did -/

theorem solve_tracks {a b subst occursCheck result}
    (done : solve ast identical a b subst occursCheck = some result) :
    (replay subst result.added).SameBindings result.work := by
  refine descend_preserves (fun walk => (replay subst walk.added).SameBindings walk.work)
    (fun visit _ tracks name value next _ bound => ?_) (fun key => rfl) done
  unfold bind at bound
  split at bound
  · cases bound
  · rw [← Option.some.inj bound, replay, OrderedMap.setAll_append]
    exact tracks.set name value

/-! ### One call -/

/-- Two answers are both failures, or both have the same bindings. -/
def SameAnswer : Option (Substitution Node) → Option (Substitution Node) → Prop :=
  Option.Rel OrderedMap.SameBindings

theorem SameAnswer.refl (answer : Option (Substitution Node)) : SameAnswer answer answer := by
  cases answer with
  | none => exact .none
  | some result => exact .some fun _ => rfl

/-- Two calls have the same nodes, as objects too, the same flag and the same bindings. -/
structure SameInputs (first second : Call Node) : Prop where
  a : first.a = second.a
  b : first.b = second.b
  identical : first.identical = second.identical
  occursCheck : first.occursCheck = second.occursCheck
  subst : first.subst.SameBindings second.subst

theorem SameInputs.solve {first second} (same : SameInputs first second) :
    Option.Rel SameWalk (first.solve ast) (second.solve ast) := by
  unfold Call.solve Unify.solve
  rw [same.a, same.b, same.identical, same.occursCheck]
  exact descend_congr _ _ _ _ _ _ ⟨same.subst, rfl⟩

/-- What the memo holds at a call's key, if anything, was stored by a call with the same
inputs. -/
def MemoAnswers (ast : UnifierDialect Node Failure) (unifier : Unifier Node)
    (call : Call Node) : Prop :=
  ∀ memo hit, unifier.memoFor call = some memo → memo.Holds (call.memoKey ast) hit →
    ∃ stored : Call Node, SameInputs stored call ∧ hit = (stored.solve ast).map Walk.added

variable {unifier : Unifier Node} {history : List (Call Node)}

theorem unify_sameAnswer {call} (answers : MemoAnswers ast unifier call) :
    SameAnswer (unifier.unify ast call).1 ((call.solve ast).map Walk.work) := by
  unfold Unifier.unify
  split
  · exact .refl _
  rename_i memo memoFor
  have read := LruCache.get_fst memo (call.memoKey ast)
  simp only
  split
  · rename_i hit next found
    rw [found] at read
    obtain ⟨stored, same, rfl⟩ := answers memo hit memoFor read.symm
    have walks : Option.Rel SameWalk (stored.solve ast) (call.solve ast) :=
      same.solve
    cases storedDone : stored.solve ast with
    | none =>
      rw [storedDone] at walks
      cases callDone : call.solve ast with
      | none => exact .none
      | some result => rw [callDone] at walks; cases walks
    | some storedResult =>
      rw [storedDone] at walks
      cases callDone : call.solve ast with
      | none => rw [callDone] at walks; cases walks
      | some result =>
        rw [callDone] at walks
        cases walks with
        | some sameWalk =>
          refine .some fun key => ?_
          rw [sameWalk.2]
          exact solve_tracks callDone key
  · exact .refl _

theorem exists_walk {call result} (answers : MemoAnswers ast unifier call)
    (done : (unifier.unify ast call).1 = some result) :
    ∃ walk, call.solve ast = some walk ∧ walk.work.SameBindings result := by
  have same := unify_sameAnswer answers
  rw [done] at same
  cases solved : call.solve ast with
  | none => rw [solved] at same; cases same
  | some walk =>
    rw [solved] at same
    cases same with
    | some sameBindings => exact ⟨walk, rfl, fun key => (sameBindings key).symm⟩

/-! ### Sequences of calls -/

/-- Whether a call uses a memo the unifier has. -/
def Call.memoises (unifier : Unifier Node) (call : Call Node) : Prop :=
  call.options.memoize.getD unifier.memoize = true

/-- Everything the memo holds was stored by a memoised call of the history under its key. -/
def MemoFrom (ast : UnifierDialect Node Failure) (history : List (Call Node))
    (unifier : Unifier Node) : Prop :=
  ∀ memo key hit, unifier.memo = some memo → memo.Holds key hit →
    ∃ stored ∈ history, stored.memoises unifier ∧ stored.memoKey ast = key ∧
      hit = (stored.solve ast).map Walk.added

/-- If the memo holds the call's key, every earlier memoised call with that key had the same
inputs. -/
def Faithful (ast : UnifierDialect Node Failure) (history : List (Call Node))
    (unifier : Unifier Node) (call : Call Node) : Prop :=
  ∀ memo hit, unifier.memoFor call = some memo → memo.Holds (call.memoKey ast) hit →
    ∀ stored ∈ history, stored.memoises unifier → stored.memoKey ast = call.memoKey ast →
      SameInputs stored call

theorem memoFor_eq_some {call memo} (found : unifier.memoFor call = some memo) :
    call.memoises unifier ∧ unifier.memo = some memo := by
  unfold Unifier.memoFor at found
  split at found
  · exact ⟨‹_›, found⟩
  · cases found

theorem memoAnswers_of_faithful {call} (origin : MemoFrom ast history unifier)
    (faithful : Faithful ast history unifier call) : MemoAnswers ast unifier call := by
  intro memo hit found holds
  obtain ⟨stored, member, memoises, key, value⟩ :=
    origin memo _ hit (memoFor_eq_some found).2 holds
  exact ⟨stored, faithful memo hit found holds stored member memoises key, value⟩

theorem unify_memoize (unifier : Unifier Node) (call : Call Node) :
    (unifier.unify ast call).2.memoize = unifier.memoize := by
  unfold Unifier.unify
  split
  · rfl
  · simp only
    split <;> rfl

theorem MemoFrom.unify {history unifier} (origin : MemoFrom ast history unifier)
    (call : Call Node) : MemoFrom ast (history ++ [call]) (unifier.unify ast call).2 := by
  have old : ∀ memo key hit, unifier.memo = some memo → memo.Holds key hit →
      ∃ stored ∈ history ++ [call], stored.memoises unifier ∧ stored.memoKey ast = key ∧
        hit = (stored.solve ast).map Walk.added := by
    intro memo key hit found holds
    obtain ⟨stored, member, facts⟩ := origin memo key hit found holds
    exact ⟨stored, List.mem_append_left _ member, facts⟩
  intro after key hit found holds
  simp only [Call.memoises, unify_memoize]
  unfold Unifier.unify at found
  split at found
  · exact old after key hit found holds
  rename_i memo memoFor
  obtain ⟨memoises, current⟩ := memoFor_eq_some memoFor
  have unread : ∀ key hit, (memo.get (call.memoKey ast)).2.Holds key hit → memo.Holds key hit :=
    fun key hit read => LruCache.holds_get.mp read
  simp only at found
  split at found
  · rename_i value read same
    rw [same] at unread
    rw [← Option.some.inj found] at holds
    exact old memo key hit current (unread key hit holds)
  · rename_i read same
    rw [same] at unread
    rw [← Option.some.inj found] at holds
    rcases LruCache.holds_set holds with ⟨rfl, rfl⟩ | held
    · exact ⟨call, List.mem_append_right _ List.mem_cons_self, memoises, rfl, rfl⟩
    · exact old memo key hit current (unread key hit held)

theorem memoFrom_new (options : UnifyOptions) :
    MemoFrom ast [] (Unifier.new options : Unifier Node) := by
  intro memo key hit found holds
  unfold Unifier.new at found
  split at found
  · rw [← Option.some.inj found] at holds
    exact absurd holds (LruCache.not_holds_new _ key hit)
  · cases found

theorem memoAnswers_new (options : UnifyOptions) (call : Call Node) :
    MemoAnswers ast (Unifier.new options : Unifier Node) call :=
  memoAnswers_of_faithful (memoFrom_new options) fun _ _ _ _ _ member =>
    absurd member List.not_mem_nil

theorem memoFrom_after (origin : MemoFrom ast history unifier) (calls : List (Call Node)) :
    MemoFrom ast (history ++ calls) (unifier.after ast calls) := by
  induction calls generalizing history unifier with
  | nil => rwa [List.append_nil]
  | cons call rest ih =>
    have next := ih (origin.unify call)
    rwa [List.append_assoc, List.singleton_append] at next

theorem unify_without_memo (options : UnifyOptions) (call : Call Node) :
    ((Unifier.new { options with memoize := some false } : Unifier Node).unify ast
      call).1 = (call.solve ast).map Walk.work := by
  unfold Unifier.unify Unifier.memoFor Unifier.new
  simp

theorem run_sameAnswer (origin : MemoFrom ast history unifier) (calls : List (Call Node))
    (faithful : ∀ before call later, calls = before ++ call :: later →
      Faithful ast (history ++ before) (unifier.after ast before) call) :
    List.Forall₂ (fun call answer =>
        SameAnswer answer ((call.solve ast).map Walk.work))
      calls (unifier.run ast calls) := by
  induction calls generalizing history unifier with
  | nil => exact .nil
  | cons call rest ih =>
    have first := faithful [] call rest rfl
    rw [List.append_nil] at first
    refine .cons (unify_sameAnswer (memoAnswers_of_faithful origin first)) ?_
    refine ih (origin.unify call) fun before next later equal => ?_
    have later := faithful (call :: before) next later (by rw [equal, List.cons_append])
    rwa [List.append_assoc, List.singleton_append]

end Memo

end Senars.Unify
