/-
This file says what the depth of meta-reasoning measures.

The check compares one mark with the limit, and every meta rule that concludes
something moves the mark one up, whatever its premises were. So the mark is the
number of meta derivations of the processor's life and not the length of a chain,
and a refusal is structural only where the two happen to agree.
-/

import Senars.Rules.Sweeps

namespace Senars.Rules

open Library Terms Control Senars.Algebra

/-! ### The mark is a count -/

/-- A meta rule is only refused for its depth where its premises are the end of a chain of meta
rules as long as the limit allows. -/
def State.DepthIsStructural (state : State) : Prop :=
  ∀ refusal ∈ state.refusals,
    state.processor.metaDepth.maxDepth ≤ refusal.chainDepth + 1

/-- Where the depth of a meta rule is checked, there were fewer meta derivations than the limit
allows in a chain, or the premises are the end of such a chain. -/
def FewOrDeep (state : State) : Event → Prop
  | .turn caller => ∀ sweep rule rest, state.sweeps caller = some sweep →
      sweep.phase = .rules (rule :: rest) → isMetaRule rule = true → rule.sync = true →
      sweep.pair.metaActive = true →
      state.metaDerivations + 1 < state.processor.metaDepth.maxDepth ∨
        state.processor.metaDepth.maxDepth ≤ pairDepth state.derived sweep.pair + 1
  | _ => True

/-- What every state keeps, for a limit. -/
structure Measured (limit : Nat) (state : State) : Prop where
  sameLimit : state.processor.metaDepth.maxDepth = limit
  counts : state.processor.metaDepth.currentDepth = state.metaDerivations
  structural : ∀ refusal ∈ state.refusals, limit ≤ refusal.chainDepth + 1

section

variable {outside : ProcessorOutside} {limit : Nat} {state next : State} {event : Event}

theorem turnSweep_measured (measured : Measured limit state) {caller sweep rule rest}
    (found : state.sweeps caller = some sweep) (phase : sweep.phase = .rules (rule :: rest))
    (condition : FewOrDeep state (.turn caller)) :
    Measured limit (turnSweep outside state caller sweep rule rest) := by
  have spec : RuleProcessor.TurnSpec outside state.processor sweep.pair rule state.results
      (state.processor.turn outside sweep.pair rule state.results) := RuleProcessor.turn_spec
  unfold turnSweep
  generalize state.processor.turn outside sweep.pair rule state.results = output at spec ⊢
  cases spec with
  | passed quiet _ metaDepth =>
    rcases quiet with rfl | rfl
    all_goals
      exact ⟨metaDepth ▸ measured.sameLimit, metaDepth ▸ measured.counts, measured.structural⟩
  | tooDeep isMeta sync active deep _ metaDepth =>
    refine ⟨metaDepth ▸ measured.sameLimit, metaDepth ▸ measured.counts, fun refusal member => ?_⟩
    rcases List.mem_append.mp member with old | new
    · exact measured.structural refusal old
    · cases List.mem_singleton.mp new
      rcases condition sweep rule rest found phase isMeta sync active with few | chain
      · have mark := measured.counts
        omega
      · exact measured.sameLimit ▸ chain
  | unkept _ sameLimit depth =>
    refine ⟨sameLimit.trans measured.sameLimit, depth.trans ?_, measured.structural⟩
    rw [measured.counts]
    rfl
  | concluded result _ sameLimit depth =>
    simp only [noteConclusion]
    split
    all_goals
      refine ⟨sameLimit.trans measured.sameLimit, depth.trans ?_, measured.structural⟩
      rw [measured.counts]
      rfl

theorem step_measured (measured : Measured limit state)
    (steps : Steps outside state event next) (condition : FewOrDeep state event) :
    Measured limit next := by
  cases steps with
  | turn found phase => exact turnSweep_measured measured found phase condition
  | _ => exact ⟨measured.sameLimit, measured.counts, measured.structural⟩

/-- In a run that checks the depth of a meta rule only while the mark is below the limit or the
premises are that deep, every refusal is structural. -/
theorem run_depth_structural {first last : State} {events : List Event} (fresh : first.Fresh)
    (run : Run (step outside) first events last)
    (condition : Run.Meets (step outside) FewOrDeep first events) : last.DepthIsStructural := by
  have measured : Measured first.processor.metaDepth.maxDepth last :=
    Run.keeps_of_meets (fun state event next kept meets taken =>
      step_measured kept (steps_of_step taken) meets) run condition
      ⟨rfl, fresh.depth.trans fresh.metaDerivations.symm, by simp [fresh.refusals]⟩
  exact fun refusal member => measured.sameLimit ▸ measured.structural refusal member

end

/-! ### A life that runs out of depth -/

/-- A processor of the default depth, whose one rule is a meta rule. -/
def reflective : State := newState [constantRule "meta-reflect" "tuned"] []

/-- A call on a pair of atoms, while a drive is strong. -/
def metaCall (first second : String) : List Event :=
  [.begin .call (premise first) (premise second) 0 (some [1]), .turn .call, .close .call]

/-- The first turn of a meta rule is not refused. -/
theorem run_depth_structural_first :
    ∃ last, Run (step counting) reflective
        [.begin .call (premise "a") (premise "b") 0 (some [1]), .turn .call] last ∧
      last.DepthIsStructural := by
  obtain ⟨last, run⟩ : ∃ last, Run (step counting) reflective
      [.begin .call (premise "a") (premise "b") 0 (some [1]), .turn .call] last :=
    ⟨_, .cons rfl (.cons rfl (.nil _))⟩
  refine ⟨last, run, run_depth_structural (fresh_newState _ _) run ?_⟩
  refine .cons trivial rfl (.cons ?_ rfl (.nil _))
  intro sweep rule rest _ _ _ _ _
  exact .inl (by decide)

/-- The second meta derivation is, although no meta rule concluded its premises. -/
theorem second_meta_derivation_refused :
    ¬ ∀ (outside : ProcessorOutside) (first last : State) (events : List Event), first.Fresh →
      first.processor.budgets = .unbudgeted → 2 ≤ first.processor.metaDepth.maxDepth →
      Run (step outside) first events last → last.DepthIsStructural := by
  intro always
  have refused : (execute (step counting) reflective (metaCall "a" "b" ++ metaCall "x" "y")).map
      (fun last => (last.processor.metaDepth.maxDepth, last.refusals.map Refusal.chainDepth)) =
        some (2, [0]) := by decide +kernel
  obtain ⟨last, done, content⟩ := Option.map_eq_some_iff.mp refused
  obtain ⟨limit, depths⟩ := Prod.mk.inj content
  obtain ⟨refusal, member, shallow⟩ : ∃ refusal ∈ last.refusals, refusal.chainDepth = 0 :=
    List.mem_map.mp (depths ▸ List.mem_cons_self)
  have structural := always counting reflective last _ (fresh_newState _ _) rfl (by decide)
    (run_of_execute done) refusal member
  rw [limit, shallow] at structural
  exact absurd structural (by decide)

end Senars.Rules
