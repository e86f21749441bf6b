/-
This file is about rebuilding the rule table from the log. Proposals are submitted,
judged and committed, and the declaration of each rule that is committed is taken
by the table at the revision of the commit.

The event of a commit does not carry the declaration, so the table that is rebuilt
has the built-in rules only. It has the entries of the live table where no rule was
committed.
-/

import Senars.Proposals.Producer

namespace Senars.Proposals

open Library Kernel ProposalLifecycle

variable {Body : Type} {bodies : RuleBodies Body}

/-! ### Runs -/

/-- A seam, and the verdicts that were given so far. -/
structure Boundary (bodies : RuleBodies Body) extends Seam bodies where
  verdicts : List AdmissionVerdict := []

inductive BoundaryEvent where
  | submit (proposal : Proposal)
  | cancel (proposalId : String)
  | judge (resolves : String → Bool) (proposal : Proposal)
  | admitBatch (resolves : String → Bool)
  | commit (index : Nat) (correlationId : Option String)

/-- Commit a verdict. The declaration of a rule goes to the table, which takes it. -/
def commitVerdict (boundary : Boundary bodies) (correlationId : Option String) :
    AdmissionVerdict → Option (Boundary bodies)
  | .refused _ _ _ => some boundary
  | .admitted proposal =>
    match proposal.payload with
    | .content _ =>
      some { boundary with
        lifecycle := (boundary.lifecycle.commitProposal correlationId proposal).2 }
    | .rule payload =>
      match landRule boundary.toSeam correlationId proposal payload with
      | (seam, true) => some { boundary with toSeam := seam }
      | (_, false) => none

def boundaryStep (boundary : Boundary bodies) : BoundaryEvent → Option (Boundary bodies)
  | .submit proposal =>
    match boundary.lifecycle.submit proposal with
    | none => some boundary
    | some (_, lifecycle) => some { boundary with lifecycle }
  | .cancel proposalId =>
    some { boundary with lifecycle := (boundary.lifecycle.cancel proposalId).2 }
  | .judge resolves proposal =>
    some { boundary with
      verdicts := boundary.verdicts ++ [boundary.lifecycle.judge resolves proposal] }
  | .admitBatch resolves =>
    let (verdicts, lifecycle) := boundary.lifecycle.admitBatch resolves
    some { boundary with lifecycle, verdicts := boundary.verdicts ++ verdicts }
  | .commit index correlationId =>
    boundary.verdicts[index]?.bind (commitVerdict boundary correlationId)

/-- The event commits a rule proposal that was cleared. -/
def CommitsRule (boundary : Boundary bodies) (event : BoundaryEvent) : Prop :=
  ∃ index correlationId proposal, event = .commit index correlationId ∧
    boundary.verdicts[index]? = some (.admitted proposal) ∧ proposal.kind = .rule

/-! ### The same entries -/

/-- What is compared of an entry: its id, kinds, truth function, body, priority and revision. -/
structure EntryContent where
  ruleId : String
  pattern : RulePattern
  truthFn : String
  body : String
  priority : JsNumber
  ruleSetRevision : Nat
  deriving DecidableEq

def contentOf (entry : RuleArtifactEntry) : EntryContent where
  ruleId := entry.ruleId
  pattern := entry.toRulePattern
  truthFn := entry.truthFn
  body := entry.body
  priority := entry.priority
  ruleSetRevision := entry.ruleSetRevision

/-- The table is rebuilt from events with the entries of another. -/
def RebuiltAs (builtins : List RuleDeclaration) (events : List ProposalEvent)
    (live : RuleTableStore bodies) : Prop :=
  ∃ rebuilt, RuleTableStore.ofEvents events bodies builtins = .ok rebuilt ∧
    rebuilt.entries.map contentOf = live.entries.map contentOf

/-! ### What the log says -/

/-- No event carries a declaration. -/
def Undeclared (events : List ProposalEvent) : Prop :=
  ∀ payload ∈ admissions events, payload.declaration = none

theorem undeclared_commitProposal {lifecycle : ProposalLifecycle}
    (undeclared : Undeclared lifecycle.recorded) (correlationId : Option String)
    (proposal : Proposal) :
    Undeclared (lifecycle.commitProposal correlationId proposal).2.recorded := by
  intro payload member
  rw [commitProposal_admissions] at member
  rcases List.mem_append.mp member with early | last
  · exact undeclared payload early
  · rw [List.mem_singleton.mp last]
    rfl

theorem undeclared_of_uncommitted {before after} (uncommitted : Uncommitted before after)
    (undeclared : Undeclared before.recorded) : Undeclared after.recorded := by
  unfold Undeclared
  rw [uncommitted.admissions]
  exact undeclared

theorem replayEvent_undeclared {store : RuleTableStore bodies} {event}
    (undeclared : Undeclared [event]) : store.replayEvent event = .ok store := by
  cases event with
  | rejected payload => rfl
  | admitted payload correlationId causationId =>
    have without : payload.declaration = none := undeclared payload (by simp [admissions])
    unfold RuleTableStore.replayEvent
    split
    · rfl
    · rename_i same
      cases same
      split
      · rename_i found
        rw [without] at found
        cases found
      · rfl

theorem replay_undeclared {events} (store : RuleTableStore bodies)
    (undeclared : Undeclared events) :
    events.foldlM RuleTableStore.replayEvent store = Except.ok store := by
  induction events with
  | nil => rfl
  | cons event rest ih =>
    have first : Undeclared [event] := fun payload member =>
      undeclared payload (by
        rw [show event :: rest = [event] ++ rest from rfl, admissions_append]
        exact List.mem_append_left _ member)
    have later : Undeclared rest := fun payload member =>
      undeclared payload (by
        rw [show event :: rest = [event] ++ rest from rfl, admissions_append]
        exact List.mem_append_right _ member)
    rw [List.foldlM_cons, replayEvent_undeclared first]
    exact ih later

/-! ### What a step does -/

theorem landRule_taken {seam next : Seam bodies} {correlationId proposal payload}
    (taken : landRule seam correlationId proposal payload = (next, true)) :
    next.lifecycle = (seam.lifecycle.commitProposal correlationId proposal).2 ∧
      ∃ entry, next.table.entries = seam.table.entries ++ [entry] := by
  unfold landRule at taken
  dsimp only at taken
  split at taken
  · cases taken
  · split at taken
    · rename_i table admitted
      cases taken
      exact ⟨rfl, _, congrArg RuleTable.entries (RuleTableStore.admitDeclaration_ok admitted).1⟩
    · cases taken

variable {boundary next : Boundary bodies} {event : BoundaryEvent}

theorem not_commitsRule_of_ne (other : ∀ index correlationId, event ≠ .commit index correlationId) :
    ¬ CommitsRule boundary event := fun ⟨index, correlationId, _, same, _⟩ =>
  other index correlationId same

/-- What a step does to the lifecycle and the table: nothing is committed, or content is and the
table stays, or a rule is and the table has one entry more. -/
inductive BoundaryMoves (boundary : Boundary bodies) :
    BoundaryEvent → Boundary bodies → Prop
  | uncommitted {event : BoundaryEvent} {next : Boundary bodies}
      (commitsNone : ¬ CommitsRule boundary event)
      (lifecycle : ProposalLifecycle.Uncommitted boundary.lifecycle next.lifecycle)
      (table : next.table = boundary.table) : BoundaryMoves boundary event next
  | committed {event : BoundaryEvent} {next : Boundary bodies} (correlationId : Option String)
      (proposal : Proposal)
      (lifecycle : next.lifecycle =
        (boundary.lifecycle.commitProposal correlationId proposal).2)
      (table : CommitsRule boundary event ∧
          (∃ entry, next.table.entries = boundary.table.entries ++ [entry]) ∨
        ¬ CommitsRule boundary event ∧ next.table = boundary.table) :
      BoundaryMoves boundary event next

theorem not_commitsRule_of_kind {index : Nat} {correlationId verdict}
    (found : boundary.verdicts[index]? = some verdict)
    (other : ∀ proposal, verdict = .admitted proposal → proposal.kind ≠ .rule) :
    ¬ CommitsRule boundary (.commit index correlationId) := by
  rintro ⟨_, _, proposal, same, isCleared, rule⟩
  cases same
  exact other proposal (Option.some.inj (found.symm.trans isCleared)) rule

theorem moves_of_boundaryStep (step : boundaryStep boundary event = some next) :
    BoundaryMoves boundary event next := by
  cases event with
  | submit proposal =>
    unfold boundaryStep at step
    dsimp only at step
    split at step
    · cases step
      exact .uncommitted (not_commitsRule_of_ne nofun) (.refl _) rfl
    · rename_i submitted
      cases step
      exact .uncommitted (not_commitsRule_of_ne nofun) (submit_uncommitted submitted) rfl
  | cancel proposalId =>
    cases step
    exact .uncommitted (not_commitsRule_of_ne nofun) (cancel_uncommitted _ proposalId) rfl
  | judge resolves proposal =>
    cases step
    exact .uncommitted (not_commitsRule_of_ne nofun) (.refl _) rfl
  | admitBatch resolves =>
    cases step
    exact .uncommitted (not_commitsRule_of_ne nofun) (admitBatch_uncommitted _ resolves) rfl
  | commit index correlationId =>
    obtain ⟨verdict, found, committed⟩ := Option.bind_eq_some_iff.mp step
    unfold commitVerdict at committed
    cases verdict with
    | refused proposal reason detail =>
      cases committed
      exact .uncommitted (not_commitsRule_of_kind found nofun) (.refl _) rfl
    | admitted proposal =>
      dsimp only at committed
      split at committed
      · rename_i payload content
        cases committed
        refine .committed correlationId proposal rfl
          (.inr ⟨not_commitsRule_of_kind found fun _ same rule => ?_, rfl⟩)
        cases same
        rw [Proposal.kind, content] at rule
        cases rule
      · rename_i payload rule
        split at committed
        · rename_i seam taken
          cases committed
          refine .committed correlationId proposal (landRule_taken taken).1
            (.inl ⟨⟨index, correlationId, proposal, rfl, found, ?_⟩, (landRule_taken taken).2⟩)
          rw [Proposal.kind, rule]
        · cases committed

theorem boundaryStep_table (step : boundaryStep boundary event = some next) :
    (CommitsRule boundary event ∧ ∃ entry, next.table.entries = boundary.table.entries ++ [entry]) ∨
      (¬ CommitsRule boundary event ∧ next.table = boundary.table) := by
  cases moves_of_boundaryStep step with
  | uncommitted commitsNone _ table => exact .inr ⟨commitsNone, table⟩
  | committed _ _ _ table => exact table

theorem boundaryStep_undeclared (undeclared : Undeclared boundary.lifecycle.recorded)
    (step : boundaryStep boundary event = some next) : Undeclared next.lifecycle.recorded := by
  cases moves_of_boundaryStep step with
  | uncommitted _ lifecycle _ => exact undeclared_of_uncommitted lifecycle undeclared
  | committed correlationId proposal lifecycle _ =>
    rw [lifecycle]
    exact undeclared_commitProposal undeclared correlationId proposal

/-! ### The run -/

variable {first last : Boundary bodies} {events : List BoundaryEvent}

/-- The log of a boundary carries no declaration. -/
def Silent (boundary : Boundary bodies) : Prop := Undeclared boundary.lifecycle.recorded

theorem run_silent (run : Run boundaryStep first events last) (silent : Silent first) :
    Silent last :=
  run.keeps (fun _ _ _ held step => boundaryStep_undeclared held step) silent

theorem ofEvents_run {builtins start}
    (loaded : RuleTableStore.load (tableArtifact (builtinEntries builtins)) bodies = .ok start)
    (quiet : first.lifecycle.recorded = []) (run : Run boundaryStep first events last) :
    RuleTableStore.ofEvents last.lifecycle.recorded bodies builtins = .ok start := by
  have silent : Silent first := by
    intro payload member
    rw [quiet] at member
    cases member
  unfold RuleTableStore.ofEvents
  rw [loaded]
  exact replay_undeclared start (run_silent run silent)

theorem run_table (run : Run boundaryStep first events last) :
    (Run.Meets boundaryStep (fun boundary event => ¬ CommitsRule boundary event) first events ∧
        last.table = first.table) ∨
      (¬ Run.Meets boundaryStep (fun boundary event => ¬ CommitsRule boundary event) first events ∧
        first.table.entries.length < last.table.entries.length) := by
  induction run with
  | nil boundary => exact Or.inl ⟨.nil boundary, rfl⟩
  | @cons first second last event events step rest ih =>
    rcases boundaryStep_table step with ⟨commits, entry, grown⟩ | ⟨commitsNone, same⟩
    · refine Or.inr ⟨?_, ?_⟩
      · intro meets
        cases meets with
        | cons met _ _ => exact met commits
      · have once : second.table.entries.length = first.table.entries.length + 1 := by
          rw [grown, List.length_append, List.length_singleton]
        rcases ih with ⟨_, kept⟩ | ⟨_, more⟩
        · rw [kept, once]
          exact Nat.lt_succ_self _
        · omega
    · rcases ih with ⟨meets, kept⟩ | ⟨fails, more⟩
      · exact Or.inl ⟨.cons commitsNone step meets, kept.trans same⟩
      · refine Or.inr ⟨?_, same ▸ more⟩
        intro meets
        cases meets with
        | cons _ sameStep later =>
          cases step.symm.trans sameStep
          exact fails later

/-- Over every run the log rebuilds the live table exactly where no rule proposal is committed in
it. -/
theorem rebuiltAs_iff {builtins : List RuleDeclaration} {start : RuleTableStore bodies}
    (loaded : RuleTableStore.load (tableArtifact (builtinEntries builtins)) bodies = .ok start)
    {lifecycle : ProposalLifecycle} (quiet : lifecycle.recorded = [])
    (run : Run boundaryStep { lifecycle, table := start } events last) :
    RebuiltAs builtins last.lifecycle.recorded last.table ↔
      Run.Meets boundaryStep (fun boundary event => ¬ CommitsRule boundary event)
        { lifecycle, table := start } events := by
  have rebuilt := ofEvents_run loaded quiet run
  rcases run_table run with ⟨meets, kept⟩ | ⟨fails, grown⟩
  · have same : last.table = start := kept
    exact iff_of_true ⟨start, rebuilt, by rw [same]⟩ meets
  · refine iff_of_false ?_ fails
    rintro ⟨other, found, same⟩
    cases Except.ok.inj (rebuilt.symm.trans found)
    have lengths := congrArg List.length same
    rw [List.length_map, List.length_map] at lengths
    exact absurd lengths (Nat.ne_of_lt grown)

/-! ### A rule the log forgets -/

/-- A rule that was learned, with a body of the table. -/
def learnedPayload : RulePayload where
  ruleId := "test:learned"
  name := "a learned reaction"
  pattern := ⟨"inheritance", "inheritance"⟩
  truthFn := "deduction"
  priority := .finite (1 / 2)
  body := some "nal:deduction"
  symbolicFallback := some "nal:deduction"

def learnedProposal : Proposal where
  proposalId := "rp-1"
  schemaVersion := proposalSchemaVersion
  baseRevision := 0
  cyclesPerProposal := 1
  issuedAtCycle := 0
  references := []
  payload := .rule learnedPayload

def oneBody : RuleBodies Unit := OrderedMap.ofList [("nal:deduction", ())]

theorem load_empty (bodies : RuleBodies Body) :
    RuleTableStore.load (tableArtifact (builtinEntries [])) bodies =
      .ok (RuleTableStore.empty bodies) := rfl

/-- Submit a rule, judge it and commit it. -/
def learnOne : List BoundaryEvent :=
  [.submit learnedProposal, .admitBatch fun _ => true, .commit 0 none]

def freshBoundary : Boundary oneBody where
  lifecycle := .fresh defaultQueueLimits
  table := RuleTableStore.empty oneBody

theorem learnOne_run : ((execute boundaryStep freshBoundary learnOne).map
    fun boundary => boundary.table.entries.length) = some 1 := by
  decide +kernel

theorem rebuiltAs_iff_learnOne :
    ∃ last, Run boundaryStep freshBoundary learnOne last ∧
      (RebuiltAs [] last.lifecycle.recorded last.table ↔
        Run.Meets boundaryStep (fun boundary event => ¬ CommitsRule boundary event) freshBoundary
          learnOne) := by
  obtain ⟨last, taken, _⟩ := Option.map_eq_some_iff.mp learnOne_run
  have run := run_of_execute taken
  exact ⟨last, run, rebuiltAs_iff (load_empty oneBody) rfl run⟩

/-- The rule is in the live table, and the one that is rebuilt has no entries. -/
theorem log_forgets_rule :
    ¬ ∀ (bodies : RuleBodies Unit) (builtins : List RuleDeclaration)
        (start : RuleTableStore bodies),
      RuleTableStore.load (tableArtifact (builtinEntries builtins)) bodies = .ok start →
      ∀ (lifecycle : ProposalLifecycle), lifecycle.recorded = [] →
      ∀ (events : List BoundaryEvent) (last : Boundary bodies),
        Run boundaryStep { lifecycle, table := start } events last →
        RebuiltAs builtins last.lifecycle.recorded last.table := by
  intro always
  obtain ⟨last, taken, one⟩ := Option.map_eq_some_iff.mp learnOne_run
  have run := run_of_execute taken
  obtain ⟨rebuilt, found, same⟩ :=
    always oneBody [] (.empty oneBody) (load_empty oneBody) _ rfl learnOne last run
  have nothing := ofEvents_run (load_empty oneBody) rfl run
  cases Except.ok.inj (nothing.symm.trans found)
  have lengths := congrArg List.length same
  rw [List.length_map, List.length_map, one] at lengths
  cases lengths

end Senars.Proposals
