/-
This file is about what the boundary does with a batch: a proposal that clears is
judged on the revision the batch found, the content that clears is committed with
its task, and the rules that clear are committed after it, until one of them throws.
-/

import Senars.Proposals.Producer

namespace Senars.Proposals

open Library Kernel ProposalLifecycle

variable {Body : Type} {bodies : RuleBodies Body}

/-! ### Admissions -/

/-- The admissions of one kind that were recorded. -/
def admissionsOf (kind : ProposalKind) (lifecycle : ProposalLifecycle) : List ProposalAdmitted :=
  (admissions lifecycle.recorded).filter (·.kind = kind)

theorem admissionsOf_commitProposal (kind : ProposalKind) (lifecycle : ProposalLifecycle)
    (correlationId : Option String) (proposal : Proposal) :
    admissionsOf kind (lifecycle.commitProposal correlationId proposal).2 =
      if proposal.kind = kind then admissionsOf kind lifecycle ++ [lifecycle.admission proposal]
      else admissionsOf kind lifecycle := by
  unfold admissionsOf
  by_cases same : proposal.kind = kind
  · simp [same, admission]
  · simp [same, admission]

theorem admissionsOf_of_uncommitted (kind : ProposalKind) {before after}
    (uncommitted : Uncommitted before after) :
    admissionsOf kind after = admissionsOf kind before := by
  unfold admissionsOf
  rw [uncommitted.admissions]

/-- What an admission and an entry have in common: the proposal, the revision and its base. -/
structure RuleTransition where
  provenance : RuleProvenance
  revision : Nat
  baseRevision : Option Nat
  deriving DecidableEq

def admittedAs (admission : ProposalAdmitted) : RuleTransition where
  provenance := .proposal admission.proposalId admission.producer
  revision := admission.resultingRevision
  baseRevision := some admission.baseRevision

def enteredAs (entry : RuleArtifactEntry) : RuleTransition where
  provenance := entry.provenance
  revision := entry.ruleSetRevision
  baseRevision := entry.parentRevision

/-! ### One rule -/

/-- The declaration of a rule proposal becomes an entry, with the admission that is recorded. -/
structure RuleEntered (seam next : Seam bodies) (proposal : Proposal)
    (declaration : RuleDeclaration) : Prop where
  lifecycle : next.lifecycle = (seam.lifecycle.commitProposal none proposal).2
  entry : ∃ entry, next.table.entries = seam.table.entries ++ [entry] ∧
    entry.toRuleDeclaration = declaration ∧
    enteredAs entry = admittedAs (seam.lifecycle.admission proposal)
  revision : next.table.revision = seam.lifecycle.revision + 1
  advances : seam.table.revision ≤ seam.lifecycle.revision
  loads : Loads bodies seam.table.ruleIds declaration

variable {proposal : Proposal} {payload : RulePayload} {declaration : RuleDeclaration}
  {verdicts : List AdmissionVerdict}

theorem landRule_cases (seam : Seam bodies) (proposal : Proposal)
    (declared : declarationOf payload = some declaration) :
    (∃ next, landRule seam none proposal payload = (next, true) ∧
        RuleEntered seam next proposal declaration) ∨
      (landRule seam none proposal payload =
          ({ seam with lifecycle := (seam.lifecycle.commitProposal none proposal).2 }, false) ∧
        ¬ (seam.table.revision ≤ seam.lifecycle.revision ∧
          Loads bodies seam.table.ruleIds declaration)) := by
  unfold landRule
  rw [declared]
  dsimp only
  rcases seam.table.admitDeclaration_eq declaration (seam.lifecycle.commitProposal none proposal).1
      (some proposal.baseRevision) { proposalId := proposal.proposalId } with
    ⟨table, taken, current, advances, loads⟩ | ⟨⟨error, refused⟩, stays⟩
  · rw [taken]
    exact Or.inl ⟨_, rfl,
      { lifecycle := rfl
        entry := ⟨_, congrArg RuleTable.entries current, rfl, rfl⟩
        revision := congrArg RuleTable.revision current
        advances := Nat.le_of_lt_succ advances
        loads }⟩
  · rw [refused]
    exact Or.inr ⟨rfl, fun both => stays ⟨Nat.lt_succ_of_le both.1, both.2⟩⟩

theorem RuleEntered.ruleIds {seam next : Seam bodies} {proposal declaration}
    (entered : RuleEntered seam next proposal declaration) :
    next.table.ruleIds = seam.table.ruleIds ++ [declaration.ruleId] := by
  obtain ⟨entry, grown, same, _⟩ := entered.entry
  rw [RuleTableStore.ruleIds, grown, List.map_append, ← same]
  rfl

theorem RuleEntered.advanced {seam next : Seam bodies}
    (entered : RuleEntered seam next proposal declaration) :
    next.table.revision ≤ next.lifecycle.revision := by
  rw [entered.revision, entered.lifecycle]
  exact le_rfl

/-! ### Verdicts -/

/-- The declaration a verdict lets through. -/
def declaredBy : AdmissionVerdict → Option RuleDeclaration
  | .refused _ _ _ => none
  | .admitted proposal =>
    match proposal.payload with
    | .rule payload => declarationOf payload
    | .content _ => none

/-- The content proposal a verdict commits. -/
def landingProposal (landed : OrderedMap String DerivedTask) : AdmissionVerdict → Option Proposal
  | .refused _ _ _ => none
  | .admitted proposal =>
    match proposal.payload with
    | .rule _ => none
    | .content _ => if (landed.get proposal.proposalId).isSome then some proposal else none

/-- What is admitted is a rule with a body. -/
def OnlyRules (verdicts : List AdmissionVerdict) : Prop :=
  ∀ proposal, AdmissionVerdict.admitted proposal ∈ verdicts →
    ∃ payload declaration, proposal.payload = .rule payload ∧
      declarationOf payload = some declaration

/-- What is admitted is content. -/
def OnlyContent (verdicts : List AdmissionVerdict) : Prop :=
  ∀ proposal, AdmissionVerdict.admitted proposal ∈ verdicts →
    ∃ payload, proposal.payload = .content payload

theorem landVerdict_rule (landed : OrderedMap String DerivedTask) (seam : Seam bodies)
    (rule : proposal.payload = .rule payload) :
    landVerdict landed seam (.admitted proposal) =
      ((landRule seam none proposal payload).1,
        if (landRule seam none proposal payload).2 then some [] else none) := by
  unfold landVerdict
  dsimp only
  rw [rule]
  dsimp only
  rcases landRule seam none proposal payload with ⟨next, _ | _⟩ <;> rfl

theorem landVerdict_rule_cases (landed : OrderedMap String DerivedTask) (seam : Seam bodies)
    (rule : proposal.payload = .rule payload)
    (declared : declarationOf payload = some declaration) :
    (∃ next, landVerdict landed seam (.admitted proposal) = (next, some []) ∧
        RuleEntered seam next proposal declaration) ∨
      (landVerdict landed seam (.admitted proposal) =
          ({ seam with lifecycle := (seam.lifecycle.commitProposal none proposal).2 }, none) ∧
        ¬ (seam.table.revision ≤ seam.lifecycle.revision ∧
          Loads bodies seam.table.ruleIds declaration)) := by
  rw [landVerdict_rule landed seam rule]
  rcases landRule_cases seam proposal declared with ⟨next, took, entered⟩ | ⟨threw, stays⟩
  · rw [took]
    exact Or.inl ⟨next, rfl, entered⟩
  · rw [threw]
    exact Or.inr ⟨rfl, stays⟩

theorem declaredBy_rule (rule : proposal.payload = .rule payload) :
    declaredBy (.admitted proposal) = declarationOf payload := by
  rw [declaredBy, rule]

theorem landVerdict_entries (landed : OrderedMap String DerivedTask) (seam : Seam bodies)
    (verdict : AdmissionVerdict) :
    ∃ added, (landVerdict landed seam verdict).1.table.entries = seam.table.entries ++ added := by
  have same : ∃ added, seam.table.entries = seam.table.entries ++ added :=
    ⟨[], (List.append_nil _).symm⟩
  cases verdict with
  | refused proposal reason detail => exact same
  | admitted proposal =>
    cases kind : proposal.payload with
    | content payload =>
      unfold landVerdict
      dsimp only
      rw [kind]
      dsimp only
      split <;> exact same
    | rule payload =>
      rw [landVerdict_rule landed seam kind]
      cases declared : declarationOf payload with
      | none =>
        rw [landRule, declared]
        exact same
      | some declaration =>
        rcases landRule_cases seam proposal declared with ⟨next, entered, facts⟩ | ⟨threw, _⟩
        · obtain ⟨entry, grown, _⟩ := facts.entry
          rw [entered]
          exact ⟨[entry], grown⟩
        · rw [threw]
          exact same

theorem land_entries (landed : OrderedMap String DerivedTask) (verdicts : List AdmissionVerdict)
    (seam : Seam bodies) :
    ∃ added, (land landed seam verdicts).1.table.entries = seam.table.entries ++ added := by
  induction verdicts generalizing seam with
  | nil => exact ⟨[], (List.append_nil _).symm⟩
  | cons verdict rest ih =>
    obtain ⟨first, grown⟩ := landVerdict_entries landed seam verdict
    rcases taken : landVerdict landed seam verdict with ⟨next, _ | tasks⟩
    · rw [land_of_thrown taken]
      rw [taken] at grown
      exact ⟨first, grown⟩
    · rw [land_of_landed taken]
      rw [taken] at grown
      obtain ⟨later, more⟩ := ih next
      exact ⟨first ++ later, by rw [more, grown, List.append_assoc]⟩

/-! ### A batch of content -/

/-- The content of a batch is committed, each with its task. -/
structure ContentLanded (landed : OrderedMap String DerivedTask)
    (before after : ProposalLifecycle) (committed : List Proposal) (tasks : List DerivedTask) :
    Prop where
  revision : after.revision = before.revision + committed.length
  rules : admissionsOf .rule after = admissionsOf .rule before
  content : (admissionsOf .content after).map (·.proposalId) =
    (admissionsOf .content before).map (·.proposalId) ++ committed.map (·.proposalId)
  tasks : committed.map (fun proposal => landed.get proposal.proposalId) = tasks.map some

theorem landVerdict_without_task {landed payload} (content : proposal.payload = .content payload)
    (without : landed.get proposal.proposalId = none) (seam : Seam bodies) :
    landVerdict landed seam (.admitted proposal) = (seam, some []) ∧
      landingProposal landed (.admitted proposal) = none := by
  rw [landVerdict, landingProposal, content]
  rw [without]
  exact ⟨rfl, rfl⟩

theorem landVerdict_with_task {landed payload task}
    (content : proposal.payload = .content payload)
    (found : landed.get proposal.proposalId = some task) (seam : Seam bodies) :
    landVerdict landed seam (.admitted proposal) =
        ({ seam with
          lifecycle := (seam.lifecycle.commitProposal (some task.stampId) proposal).2 },
          some [task]) ∧
      landingProposal landed (.admitted proposal) = some proposal := by
  rw [landVerdict, landingProposal, content]
  rw [found]
  exact ⟨rfl, rfl⟩

theorem ContentLanded.cons {landed before after proposal task committed tasks}
    (isContent : proposal.kind = .content) (found : landed.get proposal.proposalId = some task)
    (later : ContentLanded landed (before.commitProposal (some task.stampId) proposal).2 after
      committed tasks) :
    ContentLanded landed before after (proposal :: committed) (task :: tasks) where
  revision := by
    rw [later.revision, commitProposal_revision, List.length_cons]
    omega
  rules := by
    rw [later.rules, admissionsOf_commitProposal, isContent]
    rfl
  content := by
    rw [later.content, admissionsOf_commitProposal, if_pos isContent, List.map_append,
      List.append_assoc]
    rfl
  tasks := by
    rw [List.map_cons, List.map_cons, found, later.tasks]

theorem land_content (landed : OrderedMap String DerivedTask) (onlyContent : OnlyContent verdicts)
    (seam : Seam bodies) :
    ∃ lifecycle tasks, land landed seam verdicts = ({ seam with lifecycle }, some tasks) ∧
      ContentLanded landed seam.lifecycle lifecycle (verdicts.filterMap (landingProposal landed))
        tasks := by
  induction verdicts generalizing seam with
  | nil =>
    exact ⟨seam.lifecycle, [], rfl, rfl, rfl, (List.append_nil _).symm, rfl⟩
  | cons verdict rest ih =>
    have restContent : OnlyContent rest := fun proposal member =>
      onlyContent proposal (List.mem_cons_of_mem _ member)
    have skipped (skips : landVerdict landed seam verdict = (seam, some []))
        (without : landingProposal landed verdict = none) :
        ∃ lifecycle tasks, land landed seam (verdict :: rest) =
            ({ seam with lifecycle }, some tasks) ∧
          ContentLanded landed seam.lifecycle lifecycle
            ((verdict :: rest).filterMap (landingProposal landed)) tasks := by
      obtain ⟨lifecycle, tasks, lands, facts⟩ := ih restContent seam
      refine ⟨lifecycle, tasks, ?_, ?_⟩
      · rw [land_of_landed skips, lands]
        rfl
      · rw [List.filterMap_cons_none without]
        exact facts
    cases verdict with
    | refused proposal reason detail => exact skipped rfl rfl
    | admitted proposal =>
      obtain ⟨payload, content⟩ := onlyContent proposal List.mem_cons_self
      cases found : landed.get proposal.proposalId with
      | none =>
        obtain ⟨skips, without⟩ := landVerdict_without_task content found seam
        exact skipped skips without
      | some task =>
        obtain ⟨took, lands⟩ := landVerdict_with_task content found seam
        obtain ⟨lifecycle, tasks, later, facts⟩ := ih restContent
          { seam with
            lifecycle := (seam.lifecycle.commitProposal (some task.stampId) proposal).2 }
        refine ⟨lifecycle, task :: tasks, ?_, ?_⟩
        · rw [land_of_landed took, later]
          rfl
        · rw [List.filterMap_cons_some lands]
          exact facts.cons (by rw [Proposal.kind, content]) found

/-! ### The boundary -/

theorem judge_admitted {lifecycle : ProposalLifecycle} {resolves} {cleared : Proposal}
    (admits : lifecycle.judge resolves proposal = .admitted cleared) :
    cleared = proposal ∧ withoutBody proposal.payload = false := by
  unfold judge at admits
  dsimp only at admits
  split at admits
  · cases admits
  · split at admits
    · cases admits
    · split at admits
      · cases admits
      · split at admits
        · cases admits
        · rename_i body
          cases admits
          exact ⟨rfl, Bool.eq_false_iff.mpr body⟩

theorem declarationOf_of_body (body : withoutBody (.rule payload) = false) :
    ∃ declaration, declarationOf payload = some declaration := by
  unfold withoutBody at body
  dsimp only at body
  unfold declarationOf
  cases given : payload.body with
  | none =>
    rw [given] at body
    cases body
  | some text =>
    rw [given] at body
    exact ⟨_, if_neg (of_decide_eq_false body)⟩

theorem onlyContent_judged (lifecycle queued : ProposalLifecycle) (resolves : String → Bool) :
    OnlyContent (queued.content.map (lifecycle.judge resolves)) := by
  intro cleared member
  obtain ⟨proposal, inQueue, judged⟩ := List.mem_map.mp member
  obtain ⟨rfl, _⟩ := judge_admitted judged
  have kind := queued.allContent cleared inQueue
  unfold Proposal.kind at kind
  split at kind
  · rename_i payload content
    exact ⟨payload, content⟩
  · cases kind

theorem onlyRules_judged (lifecycle queued : ProposalLifecycle) (resolves : String → Bool) :
    OnlyRules (queued.rules.map (lifecycle.judge resolves)) := by
  intro cleared member
  obtain ⟨proposal, inQueue, judged⟩ := List.mem_map.mp member
  obtain ⟨rfl, body⟩ := judge_admitted judged
  have kind := queued.allRules cleared inQueue
  unfold Proposal.kind at kind
  split at kind
  · cases kind
  · rename_i payload rule
    rw [rule] at body
    obtain ⟨declaration, declared⟩ := declarationOf_of_body body
    exact ⟨payload, declaration, rule, declared⟩

theorem submitSettled_uncommitted (cyclesPerProposal : Nat)
    (settled : List (DerivedTask × List String)) (lifecycle : ProposalLifecycle)
    (landed : OrderedMap String DerivedTask) :
    Uncommitted lifecycle (submitSettled cyclesPerProposal lifecycle landed settled).1 := by
  induction settled generalizing lifecycle landed with
  | nil => exact .refl lifecycle
  | cons item rest ih =>
    unfold submitSettled
    dsimp only
    split
    · exact .refl lifecycle
    · rename_i queued next submitted
      exact (submit_uncommitted submitted).trans (ih next _)

/-- The tasks that wait for their verdicts, and the verdicts of the batch. None, where a
submission throws. -/
def judgedBatch (cyclesPerProposal : Nat) (lifecycle : ProposalLifecycle)
    (settled : List (DerivedTask × List String)) (resolves : String → Bool) :
    OrderedMap String DerivedTask × List AdmissionVerdict :=
  match submitSettled cyclesPerProposal lifecycle OrderedMap.empty settled with
  | (_, none) => (OrderedMap.empty, [])
  | (lifecycle, some landed) => (landed, (lifecycle.admitBatch resolves).1)

/-- The declarations that clear, in order. -/
def clearedDeclarations (cyclesPerProposal : Nat) (lifecycle : ProposalLifecycle)
    (settled : List (DerivedTask × List String)) (resolves : String → Bool) :
    List RuleDeclaration :=
  (judgedBatch cyclesPerProposal lifecycle settled resolves).2.filterMap declaredBy

/-- The content that clears and has a task, in order. -/
def clearedContent (cyclesPerProposal : Nat) (lifecycle : ProposalLifecycle)
    (settled : List (DerivedTask × List String)) (resolves : String → Bool) : List Proposal :=
  let (landed, verdicts) := judgedBatch cyclesPerProposal lifecycle settled resolves
  verdicts.filterMap (landingProposal landed)

/-- The revision the first rule finds: the content that clears is committed before. -/
def revisionBeforeRules (cyclesPerProposal : Nat) (lifecycle : ProposalLifecycle)
    (settled : List (DerivedTask × List String)) (resolves : String → Bool) : Nat :=
  lifecycle.revision + (clearedContent cyclesPerProposal lifecycle settled resolves).length

theorem filterMap_declaredBy_content (onlyContent : OnlyContent verdicts) :
    verdicts.filterMap declaredBy = [] := by
  refine List.filterMap_eq_nil_iff.mpr fun verdict member => ?_
  cases verdict with
  | refused proposal reason detail => rfl
  | admitted proposal =>
    obtain ⟨payload, content⟩ := onlyContent proposal member
    rw [declaredBy, content]

theorem filterMap_landingProposal_rules (landed : OrderedMap String DerivedTask)
    (onlyRules : OnlyRules verdicts) : verdicts.filterMap (landingProposal landed) = [] := by
  refine List.filterMap_eq_nil_iff.mpr fun verdict member => ?_
  cases verdict with
  | refused proposal reason detail => rfl
  | admitted proposal =>
    obtain ⟨payload, _, rule, _⟩ := onlyRules proposal member
    rw [landingProposal, rule]

theorem takeDerived_cases (cyclesPerProposal : Nat) (seam : Seam bodies)
    (settled : List (DerivedTask × List String)) (resolves : String → Bool) :
    (∃ lifecycle, takeDerived cyclesPerProposal seam settled resolves =
          ({ seam with lifecycle }, none) ∧
        Uncommitted seam.lifecycle lifecycle ∧
        clearedDeclarations cyclesPerProposal seam.lifecycle settled resolves = [] ∧
        clearedContent cyclesPerProposal seam.lifecycle settled resolves = []) ∨
      ∃ landed between tasks rules,
        takeDerived cyclesPerProposal seam settled resolves =
          ((land landed ⟨between, seam.table⟩ rules).1,
            (land landed ⟨between, seam.table⟩ rules).2.map (tasks ++ ·)) ∧
        landed = (judgedBatch cyclesPerProposal seam.lifecycle settled resolves).1 ∧
        ContentLanded landed seam.lifecycle between
          (clearedContent cyclesPerProposal seam.lifecycle settled resolves) tasks ∧
        OnlyRules rules ∧
        rules.filterMap declaredBy =
          clearedDeclarations cyclesPerProposal seam.lifecycle settled resolves := by
  have submitted := submitSettled_uncommitted cyclesPerProposal settled seam.lifecycle
    OrderedMap.empty
  unfold takeDerived clearedDeclarations clearedContent judgedBatch
  rcases outcome : submitSettled cyclesPerProposal seam.lifecycle OrderedMap.empty settled with
    ⟨lifecycle, _ | landed⟩
  all_goals rw [outcome] at submitted
  · exact Or.inl ⟨lifecycle, rfl, submitted, rfl, rfl⟩
  · have judged : Uncommitted seam.lifecycle (lifecycle.admitBatch resolves).2 :=
      submitted.trans (admitBatch_uncommitted lifecycle resolves)
    have batch : (lifecycle.admitBatch resolves).1 =
        lifecycle.content.map (lifecycle.judge resolves) ++
          lifecycle.rules.map (lifecycle.judge resolves) := List.map_append
    have content := onlyContent_judged lifecycle lifecycle resolves
    have rules := onlyRules_judged lifecycle lifecycle resolves
    obtain ⟨between, tasks, lands, facts⟩ :=
      land_content landed content (Seam.mk (lifecycle.admitBatch resolves).2 seam.table)
    refine Or.inr ⟨landed, between, tasks, lifecycle.rules.map (lifecycle.judge resolves),
      ?_, rfl, ?_, rules, ?_⟩
    · dsimp only
      rw [batch, land_append lands]
    · dsimp only
      rw [batch, List.filterMap_append, filterMap_landingProposal_rules landed rules,
        List.append_nil]
      exact
        { revision := facts.revision.trans (congrArg (· + _) judged.revision)
          rules := facts.rules.trans (admissionsOf_of_uncommitted .rule judged)
          content := facts.content.trans
            (congrArg (fun log => List.map ProposalAdmitted.proposalId log ++ _)
              (admissionsOf_of_uncommitted .content judged))
          tasks := facts.tasks }
    · dsimp only
      rw [batch, List.filterMap_append, filterMap_declaredBy_content content, List.nil_append]

end Senars.Proposals
