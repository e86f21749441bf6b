/-
This file is about the tasks of committed proposals: the authorize stage takes what
the boundary lets through, charges for each task and hands it to the perception
gate and to memory.

The boundary commits and records the whole batch before the first charge, and a task
that is refused is kept nowhere. So every commit has its task handed over exactly
where the budget lasts for the batch, the rules that follow in it do not throw, and
no two derivations share a stamp.
-/

import Senars.Cycle.Authorize
import Senars.Proposals.Dispatchable

namespace Senars.Cycle

open Library Kernel Control Proposals Proposals.ProposalLifecycle

variable {Body : Type} {bodies : RuleBodies Body}

/-! ### Cycles -/

/-- The seam, the budgets, and the tasks that were handed to the gate and to memory. -/
structure CycleState (bodies : RuleBodies Body) extends Seam bodies where
  budgets : ControlBudgets
  handed : List DerivedTask := []

inductive CycleEvent where
  | beginCycle
  | charge (scopeId : BudgetScopeId)
  | submitRule (envelope : Envelope) (payload : RulePayload)
  | authorize (settled : List (DerivedTask × List String)) (resolves : String → Bool)

/-- The state after an event. Nothing is handed over by a stage that throws. -/
def cycleNext (cyclesPerProposal : Nat) (state : CycleState bodies) :
    CycleEvent → CycleState bodies
  | .beginCycle => { state with budgets := state.budgets.beginCycle }
  | .charge scopeId => { state with budgets := (state.budgets.charge scopeId 1).2 }
  | .submitRule envelope payload =>
    { state with
      toSeam := seamNext cyclesPerProposal state.toSeam (.submitRule envelope payload) }
  | .authorize settled resolves =>
    match takeDerived cyclesPerProposal state.toSeam settled resolves with
    | (seam, none) => { state with toSeam := seam }
    | (seam, some tasks) =>
      let (applied, budgets) := applySettled state.budgets tasks
      { toSeam := seam, budgets, handed := state.handed ++ applied }

def cycleStep (cyclesPerProposal : Nat) : Machine (CycleState bodies) CycleEvent :=
  fun state event => some (cycleNext cyclesPerProposal state event)

/-! ### Handing over -/

/-- A proposal was made of a task. -/
def MadeOf (proposal : Proposal) (task : DerivedTask) : Prop :=
  ∃ lifecycle cyclesPerProposal references,
    proposal = proposalOf lifecycle cyclesPerProposal task references

/-- Every content proposal that is committed at an event has its task handed over. -/
def HandsOver (cyclesPerProposal : Nat) (state : CycleState bodies) (event : CycleEvent) : Prop :=
  match event with
  | .authorize settled resolves =>
    ∃ tasks, (cycleNext cyclesPerProposal state event).handed = state.handed ++ tasks ∧
      List.Forall₂ MadeOf
        (clearedContent cyclesPerProposal state.lifecycle settled resolves) tasks
  | _ => True

/-- Every content proposal that was committed from one state to another has its task handed over.
-/
def HandedOver (before after : CycleState bodies) : Prop :=
  ∃ committed tasks,
    (admissionsOf .content after.lifecycle).map (·.proposalId) =
      (admissionsOf .content before.lifecycle).map (·.proposalId) ++
        committed.map (·.proposalId) ∧
    after.handed = before.handed ++ tasks ∧ List.Forall₂ MadeOf committed tasks

/-- Every content proposal that was committed has its task handed over, or is queued. -/
def Accounted (state : CycleState bodies) : Prop :=
  ∀ admission ∈ admissionsOf .content state.lifecycle,
    (∃ task ∈ state.handed, s!"prop-{task.stampId}" = admission.proposalId) ∨
      ∃ proposal ∈ state.lifecycle.content, proposal.proposalId = admission.proposalId

/-- Declarations load one after the other. -/
def LoadInTurn (bodies : RuleBodies Body) (seen : List String) : List RuleDeclaration → Prop
  | [] => True
  | declaration :: rest =>
    Loads bodies seen declaration ∧ LoadInTurn bodies (seen ++ [declaration.ruleId]) rest

/-- The table takes the rules that clear: none of them throws. -/
structure RulesLoad (table : RuleTableStore bodies) (revision : Nat)
    (declarations : List RuleDeclaration) : Prop where
  advances : declarations ≠ [] → table.revision ≤ revision
  loads : LoadInTurn bodies table.ruleIds declarations

/-- Nothing of the content that clears is lost: there is none, or the rules of the batch do not
throw, what waits under the name of a proposal is its task, and the budget lasts. -/
def Lasts (cyclesPerProposal : Nat) (state : CycleState bodies) (event : CycleEvent) : Prop :=
  match event with
  | .authorize settled resolves =>
    let content := clearedContent cyclesPerProposal state.lifecycle settled resolves
    content = [] ∨
      RulesLoad state.table
          (revisionBeforeRules cyclesPerProposal state.lifecycle settled resolves)
          (clearedDeclarations cyclesPerProposal state.lifecycle settled resolves) ∧
        (∀ proposal ∈ content, ∀ task,
          (judgedBatch cyclesPerProposal state.lifecycle settled resolves).1.get
              proposal.proposalId = some task → MadeOf proposal task) ∧
        content.length ≤ state.budgets.left .proposalApplication
  | _ => True

/-! ### The rules of a batch -/

theorem rulesLoad_cons_iff {seam next : Seam bodies} {proposal declaration}
    (entered : RuleEntered seam next proposal declaration) {declarations} :
    RulesLoad seam.table seam.lifecycle.revision (declaration :: declarations) ↔
      RulesLoad next.table next.lifecycle.revision declarations := by
  constructor
  · rintro ⟨_, _, rest⟩
    exact ⟨fun _ => entered.advanced, entered.ruleIds ▸ rest⟩
  · rintro ⟨_, rest⟩
    exact ⟨fun _ => entered.advances, entered.loads, entered.ruleIds ▸ rest⟩

theorem land_rules_outcome (landed : OrderedMap String DerivedTask) {verdicts}
    (onlyRules : OnlyRules verdicts) (seam : Seam bodies) :
    ((land landed seam verdicts).2 = some [] ∧
        RulesLoad seam.table seam.lifecycle.revision (verdicts.filterMap declaredBy) ∨
      (land landed seam verdicts).2 = none ∧
        ¬ RulesLoad seam.table seam.lifecycle.revision (verdicts.filterMap declaredBy)) ∧
      admissionsOf .content (land landed seam verdicts).1.lifecycle =
        admissionsOf .content seam.lifecycle := by
  induction verdicts generalizing seam with
  | nil => exact ⟨Or.inl ⟨rfl, fun some => absurd rfl some, trivial⟩, rfl⟩
  | cons verdict rest ih =>
    have restRules : OnlyRules rest := fun proposal member =>
      onlyRules proposal (List.mem_cons_of_mem _ member)
    cases verdict with
    | refused proposal reason detail =>
      have skipped : landVerdict landed seam (.refused proposal reason detail) = (seam, some []) :=
        rfl
      have facts := ih restRules seam
      rw [land_of_landed skipped]
      refine ⟨?_, facts.2⟩
      rcases facts.1 with ⟨outcome, loads⟩ | ⟨outcome, fails⟩
      · exact Or.inl ⟨by rw [outcome]; rfl, loads⟩
      · exact Or.inr ⟨by rw [outcome]; rfl, fails⟩
    | admitted proposal =>
      obtain ⟨payload, declaration, rule, declared⟩ :=
        onlyRules proposal List.mem_cons_self
      have isRule : proposal.kind = .rule := by rw [Proposal.kind, rule]
      have uncommitted : admissionsOf .content (seam.lifecycle.commitProposal none proposal).2 =
          admissionsOf .content seam.lifecycle := by
        rw [admissionsOf_commitProposal, isRule]
        rfl
      rw [List.filterMap_cons_some ((declaredBy_rule rule).trans declared)]
      rcases landVerdict_rule_cases landed seam rule declared with
        ⟨next, taken, entered⟩ | ⟨thrown, stays⟩
      · have facts := ih restRules next
        rw [land_of_landed taken, rulesLoad_cons_iff entered]
        refine ⟨?_, facts.2.trans (entered.lifecycle ▸ uncommitted)⟩
        rcases facts.1 with ⟨outcome, loads⟩ | ⟨outcome, fails⟩
        · exact Or.inl ⟨by rw [outcome]; rfl, loads⟩
        · exact Or.inr ⟨by rw [outcome]; rfl, fails⟩
      · rw [land_of_thrown thrown]
        refine ⟨Or.inr ⟨rfl, fun all => ?_⟩, uncommitted⟩
        exact stays ⟨all.advances (by simp), all.loads.1⟩

/-! ### A stage -/

theorem forall₂_iff_of_map {Item Other : Type} {relation} {find : Item → Option Other}
    {items : List Item} {others : List Other} (found : items.map find = others.map some) :
    List.Forall₂ relation items others ↔
      ∀ item ∈ items, ∀ other, find item = some other → relation item other := by
  induction items generalizing others with
  | nil =>
    have none : others = [] := List.map_eq_nil_iff.mp found.symm
    subst none
    exact iff_of_true .nil fun _ member => absurd member List.not_mem_nil
  | cons item rest ih =>
    obtain ⟨other, later, rfl⟩ := List.exists_cons_of_ne_nil
      (show others ≠ [] by rintro rfl; cases found)
    obtain ⟨first, remaining⟩ := List.cons.inj found
    rw [List.forall₂_cons, ih remaining, List.forall_mem_cons]
    refine and_congr_left fun _ => ?_
    constructor
    · intro related another same
      cases first.symm.trans same
      exact related
    · intro related
      exact related other first

theorem forall₂_take_iff {committed tasks} (lengths : committed.length = tasks.length)
    (left : Nat) :
    List.Forall₂ MadeOf committed (tasks.take left) ↔
      List.Forall₂ MadeOf committed tasks ∧ committed.length ≤ left := by
  constructor
  · intro related
    have short := related.length_eq
    rw [List.length_take] at short
    have whole : tasks.take left = tasks := List.take_of_length_le (by omega)
    exact ⟨whole ▸ related, by omega⟩
  · rintro ⟨related, fits⟩
    rwa [List.take_of_length_le (lengths ▸ fits)]

theorem handsOver_step (cyclesPerProposal : Nat) (state : CycleState bodies)
    (event : CycleEvent) :
    HandsOver cyclesPerProposal state event ↔ Lasts cyclesPerProposal state event := by
  cases event with
  | beginCycle => exact Iff.rfl
  | charge scopeId => exact Iff.rfl
  | submitRule envelope payload => exact Iff.rfl
  | authorize settled resolves =>
    unfold HandsOver Lasts cycleNext
    dsimp only
    rcases takeDerived_cases cyclesPerProposal state.toSeam settled resolves with
      ⟨lifecycle, threw, _, _, without⟩ |
        ⟨landed, between, tasks, rules, took, waiting, content, onlyRules, declared⟩
    · rw [threw, without]
      exact iff_of_true ⟨[], (List.append_nil _).symm, .nil⟩ (Or.inl rfl)
    · rw [took, ← waiting]
      set committed := clearedContent cyclesPerProposal state.lifecycle settled resolves
      have lengths : committed.length = tasks.length := by
        have same := congrArg List.length content.tasks
        rwa [List.length_map, List.length_map] at same
      have reached : revisionBeforeRules cyclesPerProposal state.lifecycle settled resolves =
          between.revision := content.revision.symm
      rw [reached, ← declared]
      rcases (land_rules_outcome landed onlyRules (Seam.mk between state.table)).1 with
        ⟨outcome, loads⟩ | ⟨outcome, fails⟩
      · rw [outcome]
        show (∃ handed, state.handed ++ (applySettled state.budgets (tasks ++ [])).1 =
          state.handed ++ handed ∧ List.Forall₂ MadeOf committed handed) ↔ _
        rw [List.append_nil, applySettled_eq_take, ← forall₂_iff_of_map content.tasks]
        constructor
        · rintro ⟨handed, same, related⟩
          rw [← List.append_cancel_left same, forall₂_take_iff lengths] at related
          exact Or.inr ⟨loads, related⟩
        · rintro (nothing | ⟨_, related⟩)
          · have noTasks : tasks = [] := List.length_eq_zero_iff.mp
              (lengths.symm.trans (congrArg List.length nothing))
            refine ⟨_, rfl, ?_⟩
            rw [noTasks, nothing, List.take_nil]
            exact .nil
          · exact ⟨_, rfl, (forall₂_take_iff lengths _).mpr related⟩
      · rw [outcome]
        constructor
        · rintro ⟨handed, same, related⟩
          have nobody : handed = [] := List.self_eq_append_right.mp same
          rw [nobody] at related
          exact Or.inl (List.forall₂_nil_right_iff.mp related)
        · rintro (nothing | ⟨loads, _⟩)
          · rw [nothing]
            exact ⟨[], (List.append_nil _).symm, .nil⟩
          · exact absurd loads fails

theorem cycleNext_content (cyclesPerProposal : Nat) (state : CycleState bodies)
    (settled : List (DerivedTask × List String)) (resolves : String → Bool) :
    (admissionsOf .content
        (cycleNext cyclesPerProposal state (.authorize settled resolves)).lifecycle).map
          (·.proposalId) =
      (admissionsOf .content state.lifecycle).map (·.proposalId) ++
        (clearedContent cyclesPerProposal state.lifecycle settled resolves).map (·.proposalId) := by
  have kept : (cycleNext cyclesPerProposal state (.authorize settled resolves)).lifecycle =
      (takeDerived cyclesPerProposal state.toSeam settled resolves).1.lifecycle := by
    unfold cycleNext
    dsimp only
    split <;> rename_i same <;> rw [same]
  rw [kept]
  rcases takeDerived_cases cyclesPerProposal state.toSeam settled resolves with
    ⟨lifecycle, threw, uncommitted, _, without⟩ |
      ⟨landed, between, tasks, rules, took, _, content, onlyRules, _⟩
  · rw [threw, without, List.map_nil, List.append_nil]
    exact congrArg (List.map _) (admissionsOf_of_uncommitted .content uncommitted)
  · rw [took, ← content.content]
    exact congrArg (List.map _)
      (land_rules_outcome landed onlyRules (Seam.mk between state.table)).2

/-! ### Runs -/

theorem handedOver_refl (state : CycleState bodies) : HandedOver state state :=
  ⟨[], [], (List.append_nil _).symm, (List.append_nil _).symm, .nil⟩

theorem HandedOver.trans {first second third : CycleState bodies}
    (early : HandedOver first second) (late : HandedOver second third) :
    HandedOver first third := by
  obtain ⟨committed, tasks, logged, handed, related⟩ := early
  obtain ⟨later, more, laterLogged, laterHanded, laterRelated⟩ := late
  refine ⟨committed ++ later, tasks ++ more, ?_, ?_, List.rel_append related laterRelated⟩
  · rw [laterLogged, logged, List.map_append, List.append_assoc]
  · rw [laterHanded, handed, List.append_assoc]

theorem handedOver_step {cyclesPerProposal} {state : CycleState bodies} {event}
    (hands : HandsOver cyclesPerProposal state event) :
    HandedOver state (cycleNext cyclesPerProposal state event) := by
  cases event with
  | beginCycle => exact handedOver_refl state
  | charge scopeId => exact handedOver_refl state
  | submitRule envelope payload =>
    have uncommitted : Uncommitted state.lifecycle
        (seamNext cyclesPerProposal state.toSeam (.submitRule envelope payload)).lifecycle := by
      unfold seamNext
      dsimp only
      split
      · exact .refl _
      · rename_i submitted
        exact submit_uncommitted submitted
    refine ⟨[], [], ?_, (List.append_nil _).symm, .nil⟩
    rw [List.map_nil, List.append_nil]
    exact congrArg (List.map _) (admissionsOf_of_uncommitted .content uncommitted)
  | authorize settled resolves =>
    obtain ⟨tasks, handed, related⟩ := hands
    exact ⟨_, tasks, cycleNext_content cyclesPerProposal state settled resolves, handed, related⟩

theorem HandedOver.accounted {first last : CycleState bodies} (handed : HandedOver first last)
    (quiet : admissionsOf .content first.lifecycle = []) : Accounted last := by
  obtain ⟨committed, tasks, logged, given, related⟩ := handed
  intro admission member
  have named : admission.proposalId ∈ committed.map (·.proposalId) := by
    rw [quiet, List.map_nil, List.nil_append] at logged
    exact logged ▸ List.mem_map_of_mem member
  obtain ⟨proposal, isCommitted, same⟩ := List.mem_map.mp named
  obtain ⟨task, taken, lifecycle, cyclesPerProposal, references, made⟩ :=
    exists_right_of_forall₂ related isCommitted
  refine Or.inl ⟨task, given ▸ List.mem_append_right _ taken, ?_⟩
  rw [← same, made]
  rfl

variable {cyclesPerProposal : Nat} {first last : CycleState bodies} {events : List CycleEvent}

theorem run_handedOver (run : Run (cycleStep cyclesPerProposal) first events last)
    (meets : Run.Meets (cycleStep cyclesPerProposal) (HandsOver cyclesPerProposal) first events) :
    HandedOver first last := by
  refine run.relates HandedOver handedOver_refl (fun _ _ _ => .trans) ?_ meets
  intro state event next hands taken
  cases taken
  exact handedOver_step hands

/-- Over every run of cycles each stage hands over the task of everything it commits, exactly
where at each stage nothing is lost. There the commits of the run and the tasks that were handed
over are the same. -/
theorem handsOver_iff (run : Run (cycleStep cyclesPerProposal) first events last) :
    (Run.Meets (cycleStep cyclesPerProposal) (HandsOver cyclesPerProposal) first events ↔
        Run.Meets (cycleStep cyclesPerProposal) (Lasts cyclesPerProposal) first events) ∧
      (Run.Meets (cycleStep cyclesPerProposal) (Lasts cyclesPerProposal) first events →
        HandedOver first last) := by
  have agree : Run.Meets (cycleStep cyclesPerProposal) (HandsOver cyclesPerProposal) first events ↔
      Run.Meets (cycleStep cyclesPerProposal) (Lasts cyclesPerProposal) first events :=
    Run.meets_congr (handsOver_step cyclesPerProposal)
  exact ⟨agree, fun meets => run_handedOver run (agree.mpr meets)⟩

/-! ### A budget for one -/

/-- A derived task, by its stamp. -/
def derivation (stampId : String) : DerivedTask where
  taskType := .belief
  term := "<a --> b>"
  truth := none
  stampId

/-- Budgets with one proposal to a cycle. -/
def oneProposal : ControlBudgets where
  gate := freshBudgets.gate
  overrides :=
    { limit := fun scopeId => if scopeId = .proposalApplication then some 1 else none
      positive := fun scopeId given found => by
        split at found
        · exact Or.inr (Option.some.inj found ▸ Nat.one_pos)
        · cases found }

def freshCycle (budgets : ControlBudgets) : CycleState deductionBody where
  toSeam := freshSeam deductionBody
  budgets

/-- A stage that finds two derivations. -/
def twoDerivations : List CycleEvent :=
  [.authorize [(derivation "1", []), (derivation "2", [])] fun _ => true]

theorem handsOver_iff_twoDerivations :
    ∃ last, Run (cycleStep 1) (freshCycle freshBudgets) twoDerivations last ∧
      ((Run.Meets (cycleStep 1) (HandsOver 1) (freshCycle freshBudgets) twoDerivations ↔
          Run.Meets (cycleStep 1) (Lasts 1) (freshCycle freshBudgets) twoDerivations) ∧
        (Run.Meets (cycleStep 1) (Lasts 1) (freshCycle freshBudgets) twoDerivations →
          HandedOver (freshCycle freshBudgets) last)) := by
  have run : Run (cycleStep 1) (freshCycle freshBudgets) twoDerivations _ := .cons rfl (.nil _)
  exact ⟨_, run, handsOver_iff run⟩

/-- With a budget for one the second is committed, and is neither handed over nor queued. -/
theorem committed_task_lost :
    ¬ ∀ (bodies : RuleBodies Unit) (cyclesPerProposal : Nat) (first last : CycleState bodies)
        (events : List CycleEvent), admissionsOf .content first.lifecycle = [] →
      Run (cycleStep cyclesPerProposal) first events last → Accounted last := by
  intro always
  have accounted := always deductionBody 1 (freshCycle oneProposal) _ twoDerivations rfl
    (.cons rfl (.nil _))
  have recorded : (admissionsOf .content (cycleNext 1 (freshCycle oneProposal)
      (.authorize [(derivation "1", []), (derivation "2", [])] fun _ => true)).lifecycle).map
        (·.proposalId) = ["prop-1", "prop-2"] := by
    decide +kernel
  have handed : (cycleNext 1 (freshCycle oneProposal)
      (.authorize [(derivation "1", []), (derivation "2", [])] fun _ => true)).handed =
        [derivation "1"] := by
    decide +kernel
  have queue : (cycleNext 1 (freshCycle oneProposal)
      (.authorize [(derivation "1", []), (derivation "2", [])] fun _ => true)).lifecycle.content =
        [] := by
    decide +kernel
  obtain ⟨admission, member, second⟩ := List.mem_map.mp
    (show "prop-2" ∈ _ from recorded ▸ List.mem_cons_of_mem _ List.mem_cons_self)
  rcases accounted admission member with ⟨task, given, same⟩ | ⟨proposal, queued, _⟩
  · rw [handed] at given
    rw [List.mem_singleton.mp given, second] at same
    revert same
    decide +kernel
  · rw [queue] at queued
    cases queued

end Senars.Cycle
