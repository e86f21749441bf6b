/-
This file is about the audit of a recorded stream. It flags the admissions whose resulting revision
is ahead of a committed one, and the judge refuses the proposals whose base revision is not the
committed one.

What is committed next results in the revision after the one before it, and each proposal was based
on a revision between the first one and the one it found. The first admission tells the two apart at
every revision from its base on.
-/

import Senars.Proposals.Conservation

namespace Senars.Proposals

open Library Kernel ProposalLifecycle

/-- The admissions of a stream that are ahead of a committed revision. -/
def staleAdmissions (events : List ProposalEvent) (committedRevision : Nat) :
    Except ProposalReplayError (List ReplayedAdmission) :=
  (replayProposalStream events).map fun state =>
    state.admissions.filter fun admission => committedRevision < admission.resultingRevision

/-! ### What is committed -/

/-- A history, with the proposals that were committed in it. -/
structure CommitHistory extends SubmissionHistory where
  committed : List Proposal := []

/-- The proposal that a call commits. -/
def commits (history : SubmissionHistory) : SubmissionEvent → Option Proposal
  | .commit index _ => history.verdicts[index]?.bind (·.clears)
  | _ => none

/-- One call, with what it commits. -/
def commitStep : Machine CommitHistory SubmissionEvent
  | history, event =>
    (submissionStep history.toSubmissionHistory event).map fun next =>
      { toSubmissionHistory := next
        committed := history.committed ++ (commits history.toSubmissionHistory event).toList }

/-- A lifecycle that was rebuilt from an earlier log, with nothing recorded since. -/
def resumed (earlier : List ProposalEvent) (limits : ProposalQueueLimits) : CommitHistory where
  lifecycle := .fromEvents earlier limits

/-- Whether a lifecycle would refuse a proposal as stale, were a revision the committed one. -/
def refusesAsStale (lifecycle : ProposalLifecycle) (resolves : String → Bool)
    (committedRevision : Nat) (proposal : Proposal) : Bool :=
  match { lifecycle with revision := committedRevision }.judge resolves proposal with
  | .refused _ .staleRevision _ => true
  | _ => false

/-- An admission that is replayed tells of a proposal. -/
structure TellsOf (admission : ReplayedAdmission) (proposal : Proposal) : Prop where
  proposalId : admission.proposalId = proposal.proposalId
  kind : admission.kind = proposal.kind
  baseRevision : admission.baseRevision = proposal.baseRevision

/-- The stream is replayed, one admission for each proposal that was committed, and the audit
returns the admissions of the stale proposals. -/
def AuditsExactly (history : CommitHistory) (committedRevision : Nat)
    (stale : Proposal → Bool) : Prop :=
  ∃ state, replayProposalStream history.lifecycle.recorded = .ok state ∧
    List.Forall₂ TellsOf state.admissions history.committed ∧
    staleAdmissions history.lifecycle.recorded committedRevision =
      .ok (((state.admissions.zip history.committed).filter fun pair => stale pair.2).map (·.1))

/-! ### What each call does -/

section

variable {history next : SubmissionHistory} {lifecycle : ProposalLifecycle}

theorem judge_clears {resolves proposal cleared}
    (clears : cleared ∈ (lifecycle.judge resolves proposal).clears) :
    cleared.schemaVersion = proposalSchemaVersion ∧ cleared.baseRevision = lifecycle.revision := by
  refine ⟨judge_version clears, ?_⟩
  unfold judge at clears
  dsimp only at clears
  split at clears
  · cases clears
  · split at clears
    · cases clears
    · next sameRevision =>
      repeat' split at clears
      all_goals cases clears
      exact not_not.mp sameRevision

theorem refusesAsStale_iff {resolves committedRevision proposal}
    (version : proposal.schemaVersion = proposalSchemaVersion) :
    refusesAsStale lifecycle resolves committedRevision proposal = true ↔
      proposal.baseRevision ≠ committedRevision := by
  unfold refusesAsStale judge
  rw [if_neg (not_not.mpr version)]
  by_cases same : proposal.baseRevision = committedRevision
  · rw [if_neg (not_not.mpr same)]
    split_ifs
    all_goals simp [same]
  · rw [if_pos same]
    simpa using same

theorem submissionStep_cases {event} (taken : submissionStep history event = some next) :
    (commits history event = none ∧ Uncommitted history.lifecycle next.lifecycle ∧
        ∀ verdict ∈ next.verdicts, verdict ∈ history.verdicts ∨
          ∃ resolves proposal, verdict = history.lifecycle.judge resolves proposal) ∨
      ∃ proposal correlationId, commits history event = some proposal ∧
        AdmissionVerdict.admitted proposal ∈ history.verdicts ∧
        next =
          { history with
            lifecycle := (history.lifecycle.commitProposal correlationId proposal).2 } := by
  cases event with
  | submit proposal =>
    unfold submissionStep at taken
    dsimp only at taken
    split at taken
    · cases taken
      exact .inl ⟨rfl, .refl _, fun _ given => .inl given⟩
    · next queued lifecycle submitted =>
      cases taken
      exact .inl ⟨rfl, submit_uncommitted submitted, fun _ given => .inl given⟩
  | admitBatch resolves =>
    cases taken
    refine .inl ⟨rfl, admitBatch_uncommitted history.lifecycle resolves, fun verdict given => ?_⟩
    refine (List.mem_append.mp given).imp id fun judged => ?_
    obtain ⟨proposal, _, same⟩ := List.mem_map.mp judged
    exact ⟨resolves, proposal, same.symm⟩
  | cancel proposalId =>
    cases taken
    exact .inl ⟨rfl, cancel_uncommitted history.lifecycle proposalId, fun _ given => .inl given⟩
  | judge resolves proposal =>
    cases taken
    refine .inl ⟨rfl, .refl _, fun verdict given => ?_⟩
    exact (List.mem_append.mp given).imp id fun judged =>
      ⟨resolves, proposal, List.mem_singleton.mp judged⟩
  | commit index correlationId =>
    obtain ⟨verdict, isVerdict, rfl⟩ := Option.map_eq_some_iff.mp taken
    have commitsIt : commits history (.commit index correlationId) = verdict.clears := by
      rw [commits, isVerdict, Option.bind_some]
    cases verdict with
    | refused proposal reason detail =>
      exact .inl ⟨commitsIt, .refl _, fun _ given => .inl given⟩
    | admitted proposal =>
      exact .inr ⟨proposal, correlationId, commitsIt, List.mem_of_getElem? isVerdict, rfl⟩

end

/-! ### What the log says of the commits -/

/-- Proposals that were committed from a revision on, each with the revision it resulted in. -/
def numbered (start : Nat) (committed : List Proposal) : List (Proposal × Nat) :=
  committed.zipIdx (start + 1)

theorem numbered_append (start : Nat) (committed : List Proposal) (proposal : Proposal) :
    numbered start (committed ++ [proposal]) =
      numbered start committed ++ [(proposal, start + committed.length + 1)] := by
  unfold numbered
  rw [List.zipIdx_append, List.zipIdx_singleton, Nat.add_right_comm]

/-- The payload of the admission of a proposal that resulted in a revision. -/
def admissionAt (pair : Proposal × Nat) : ProposalAdmitted where
  proposalId := pair.1.proposalId
  kind := pair.1.kind
  schemaVersion := pair.1.schemaVersion
  baseRevision := pair.1.baseRevision
  resultingRevision := pair.2

/-- What the replay keeps of an admission. -/
def replayedAdmission (payload : ProposalAdmitted) : ReplayedAdmission where
  proposalId := payload.proposalId
  kind := payload.kind
  baseRevision := payload.baseRevision
  resultingRevision := payload.resultingRevision
  producer := payload.producer
  declaration := payload.declaration

/-- A proposal of this schema that is based on a revision from the first one on. -/
structure BasedFrom (start : Nat) (proposal : Proposal) : Prop where
  version : proposal.schemaVersion = proposalSchemaVersion
  start : start ≤ proposal.baseRevision

/-- The log of a lifecycle that started at a revision: each commit adds one to it, and was based on
no later revision than the one before it. -/
structure Numbers (start : Nat) (history : CommitHistory) : Prop where
  revision : history.lifecycle.revision = start + history.committed.length
  admissions : admissions history.lifecycle.recorded =
    (numbered start history.committed).map admissionAt
  based : ∀ pair ∈ numbered start history.committed,
    BasedFrom start pair.1 ∧ pair.1.baseRevision < pair.2
  cleared : ∀ verdict ∈ history.verdicts, ∀ proposal ∈ verdict.clears,
    BasedFrom start proposal ∧ proposal.baseRevision ≤ history.lifecycle.revision

theorem fromEvents_recorded (earlier : List ProposalEvent) (limits : ProposalQueueLimits) :
    (fromEvents earlier limits).recorded = [] := by
  unfold fromEvents
  induction earlier using List.reverseRecOn with
  | nil => rfl
  | append_singleton earlier event ih =>
    rw [List.foldl_append]
    cases event with
    | admitted payload correlationId causationId => exact ih
    | rejected payload => exact ih

theorem numbers_resumed (earlier : List ProposalEvent) (limits : ProposalQueueLimits) :
    Numbers (fromEvents earlier limits).revision (resumed earlier limits) where
  revision := rfl
  admissions := congrArg _ (fromEvents_recorded earlier limits)
  based _ member := absurd member List.not_mem_nil
  cleared _ member := absurd member List.not_mem_nil

section

variable {start : Nat} {history next : CommitHistory}

theorem Numbers.step {event} (numbers : Numbers start history)
    (taken : commitStep history event = some next) : Numbers start next := by
  obtain ⟨after, takes, rfl⟩ := Option.map_eq_some_iff.mp taken
  have started : start ≤ history.lifecycle.revision := by
    rw [numbers.revision]
    exact Nat.le_add_right _ _
  rcases submissionStep_cases takes with ⟨nothing, uncommitted, given⟩ |
      ⟨proposal, correlationId, commitsIt, isVerdict, rfl⟩
  · rw [nothing, Option.toList_none, List.append_nil]
    refine ⟨uncommitted.revision.trans numbers.revision,
      uncommitted.admissions.trans numbers.admissions, numbers.based,
      fun verdict member proposal clears => ?_⟩
    rw [uncommitted.revision]
    rcases given verdict member with early | ⟨resolves, judged, rfl⟩
    · exact numbers.cleared verdict early proposal clears
    · obtain ⟨version, base⟩ := judge_clears clears
      exact ⟨⟨version, base ▸ started⟩, base.le⟩
  · rw [commitsIt, Option.toList_some]
    obtain ⟨based, known⟩ := numbers.cleared _ isVerdict proposal rfl
    refine ⟨?_, ?_, fun pair member => ?_, fun verdict member other clears => ?_⟩
    · rw [List.length_append, ← Nat.add_assoc, ← numbers.revision]
      exact commitProposal_revision _ _ _
    · rw [numbered_append, List.map_append, ← numbers.admissions, ← numbers.revision]
      exact commitProposal_admissions _ _ _
    · rw [numbered_append] at member
      rcases List.mem_append.mp member with early | last
      · exact numbers.based pair early
      · rw [List.mem_singleton.mp last]
        exact ⟨based, Nat.lt_succ_of_le (numbers.revision ▸ known)⟩
    · obtain ⟨basedOther, knownOther⟩ := numbers.cleared verdict member other clears
      exact ⟨basedOther, Nat.le_succ_of_le knownOther⟩

/-! ### The audit -/

theorem replayFold_admissions (events : List ProposalEvent) (versions : List Nat) :
    (replayFold events versions).admissions = (admissions events).map replayedAdmission := by
  induction events using List.reverseRecOn with
  | nil => rfl
  | append_singleton events event ih =>
    rw [replayFold_append, admissions_append, List.map_append, ← ih]
    cases event with
    | admitted payload correlationId causationId => rfl
    | rejected payload => exact (List.append_nil _).symm

theorem Numbers.replays (numbers : Numbers start history) :
    ∃ state, replayProposalStream history.lifecycle.recorded = .ok state ∧
      state.admissions = (numbered start history.committed).map fun pair =>
        replayedAdmission (admissionAt pair) := by
  refine ⟨_, replayProposalStream_eq fun payload member => ?_, ?_⟩
  · rw [numbers.admissions] at member
    obtain ⟨pair, isPair, rfl⟩ := List.mem_map.mp member
    exact (numbers.based pair isPair).1.version
  · show (replayFold _ _).admissions = _
    rw [replayFold_admissions, numbers.admissions, List.map_map]
    rfl

theorem committed_eq (start : Nat) (committed : List Proposal) :
    committed = (numbered start committed).map (·.1) :=
  (List.zipIdx_map_fst _ _).symm

theorem nodup_replayed (start : Nat) (committed : List Proposal) :
    ((numbered start committed).map fun pair => replayedAdmission (admissionAt pair)).Nodup := by
  refine List.Nodup.of_map (·.resultingRevision) ?_
  rw [List.map_map]
  show ((committed.zipIdx (start + 1)).map Prod.snd).Nodup
  rw [List.zipIdx_map_snd]
  exact List.nodup_range'

theorem Numbers.auditsExactly_iff (numbers : Numbers start history) (committedRevision : Nat)
    (stale : Proposal → Bool) :
    AuditsExactly history committedRevision stale ↔
      ∀ pair ∈ numbered start history.committed,
        (committedRevision < pair.2 ↔ stale pair.1 = true) := by
  obtain ⟨state, replayed, admitted⟩ := numbers.replays
  have zipped : state.admissions.zip history.committed =
      (numbered start history.committed).map fun pair =>
        (replayedAdmission (admissionAt pair), pair.1) := by
    rw [admitted]
    exact (congrArg _ (committed_eq start history.committed)).trans List.zip_map'
  have tells : List.Forall₂ TellsOf state.admissions
      ((numbered start history.committed).map (·.1)) := by
    rw [admitted, List.forall₂_map_left_iff, List.forall₂_map_right_iff]
    exact List.forall₂_same.mpr fun pair _ => ⟨rfl, rfl, rfl⟩
  rw [← committed_eq] at tells
  have distinct : state.admissions.Nodup := by
    rw [admitted]
    exact nodup_replayed start history.committed
  have flags : staleAdmissions history.lifecycle.recorded committedRevision =
      .ok (state.admissions.filter fun admission =>
        committedRevision < admission.resultingRevision) := by
    rw [staleAdmissions, replayed]
    rfl
  have exact_iff : AuditsExactly history committedRevision stale ↔
      state.admissions.filter (fun admission => committedRevision < admission.resultingRevision) =
        ((state.admissions.zip history.committed).filter fun pair => stale pair.2).map (·.1) := by
    constructor
    · rintro ⟨other, same, _, audits⟩
      cases replayed.symm.trans same
      exact Except.ok.inj (flags.symm.trans audits)
    · intro same
      exact ⟨state, replayed, tells, flags.trans (congrArg _ same)⟩
  rw [exact_iff, filter_eq_filter_zip_iff distinct tells.length_eq, zipped, List.forall_mem_map]
  refine forall₂_congr fun pair member => ?_
  rw [Bool.eq_iff_iff, decide_eq_true_iff]
  rfl

theorem Numbers.first {proposal rest} (numbers : Numbers start history)
    (committed : history.committed = proposal :: rest) :
    (proposal, start + 1) ∈ numbered start history.committed ∧ proposal.baseRevision = start := by
  have member : (proposal, start + 1) ∈ numbered start history.committed := by
    rw [committed]
    exact List.mem_cons_self
  obtain ⟨based, below⟩ := numbers.based _ member
  exact ⟨member, Nat.le_antisymm (Nat.le_of_lt_succ below) based.start⟩

end

/-- The audit of what a lifecycle recorded returns exactly the admissions whose proposal the judge
would refuse as stale where the committed revision is behind the base of every admission, and only
there. It returns exactly those whose base is behind the committed revision where nothing was
admitted, and only there. -/
theorem stale_audit_iff {limits : ProposalQueueLimits} {earlier : List ProposalEvent}
    {events : List SubmissionEvent} {history : CommitHistory}
    (run : Run commitStep (resumed earlier limits) events history) (resolves : String → Bool)
    (committedRevision : Nat) :
    (AuditsExactly history committedRevision
        (refusesAsStale history.lifecycle resolves committedRevision) ↔
      ∀ admission ∈ admissions history.lifecycle.recorded,
        committedRevision < admission.baseRevision) ∧
    (AuditsExactly history committedRevision
        (fun proposal => proposal.baseRevision < committedRevision) ↔
      admissions history.lifecycle.recorded = []) := by
  have numbers : Numbers (fromEvents earlier limits).revision history :=
    run.keeps (fun _ _ _ numbers taken => numbers.step taken) (numbers_resumed earlier limits)
  generalize (fromEvents earlier limits).revision = start at numbers
  have none_iff : admissions history.lifecycle.recorded = [] ↔ history.committed = [] := by
    rw [numbers.admissions, List.map_eq_nil_iff, numbered, List.zipIdx_eq_nil_iff]
  rw [numbers.auditsExactly_iff, numbers.auditsExactly_iff, none_iff, numbers.admissions,
    List.forall_mem_map]
  constructor
  · constructor
    · intro agrees pair member
      cases committed : history.committed with
      | nil =>
        rw [committed] at member
        cases member
      | cons proposal rest =>
        obtain ⟨first, base⟩ := numbers.first committed
        have version := (numbers.based _ first).1.version
        have same := (agrees _ first).trans (refusesAsStale_iff version)
        have started := (numbers.based pair member).1.start
        show committedRevision < pair.1.baseRevision
        dsimp only at same
        omega
    · intro behind pair member
      obtain ⟨based, below⟩ := numbers.based pair member
      have ahead : committedRevision < pair.1.baseRevision := behind pair member
      rw [refusesAsStale_iff based.version]
      exact ⟨fun _ => ahead.ne', fun _ => ahead.trans below⟩
  · constructor
    · intro agrees
      cases committed : history.committed with
      | nil => rfl
      | cons proposal rest =>
        obtain ⟨first, base⟩ := numbers.first committed
        have same := agrees _ first
        rw [decide_eq_true_iff] at same
        dsimp only at same
        omega
    · intro empty pair member
      rw [empty] at member
      cases member

/-- Whatever is submitted, judged and committed after an earlier log, the admissions count on from
its revision, one by one, and each is based on a revision between that one and its own. -/
theorem revisions_consecutive {limits : ProposalQueueLimits} {earlier : List ProposalEvent}
    {events : List SubmissionEvent} {history : CommitHistory}
    (run : Run commitStep (resumed earlier limits) events history) :
    let start := (fromEvents earlier limits).revision
    history.lifecycle.revision = start + history.committed.length ∧
      (admissions history.lifecycle.recorded).map (·.resultingRevision) =
        List.range' (start + 1) history.committed.length ∧
      ∀ admission ∈ admissions history.lifecycle.recorded,
        start ≤ admission.baseRevision ∧ admission.baseRevision < admission.resultingRevision := by
  have numbers := run.keeps (fun _ _ _ numbers taken => Numbers.step numbers taken)
    (numbers_resumed earlier limits)
  refine ⟨numbers.revision, ?_, ?_⟩
  · rw [numbers.admissions, List.map_map]
    exact List.zipIdx_map_snd _ _
  · rw [numbers.admissions, List.forall_mem_map]
    exact fun pair member =>
      ⟨(numbers.based pair member).1.start, (numbers.based pair member).2⟩

/-! ### One commit -/

/-- An observation is judged and committed. -/
def commitOne : List SubmissionEvent :=
  [.judge (fun _ => true) (observation "first"), .commit 0 none]

/-- What a fresh lifecycle comes to that commits one observation. -/
def oneCommitted : CommitHistory :=
  (execute commitStep (resumed [] ⟨1, 1⟩) commitOne).getD (resumed [] ⟨1, 1⟩)

theorem commitOne_run : Run commitStep (resumed [] ⟨1, 1⟩) commitOne oneCommitted :=
  run_of_execute rfl

theorem stale_audit_iff_one :
    (AuditsExactly oneCommitted 0 (refusesAsStale oneCommitted.lifecycle (fun _ => true) 0) ↔
      ∀ admission ∈ admissions oneCommitted.lifecycle.recorded, 0 < admission.baseRevision) ∧
    (AuditsExactly oneCommitted 0 (fun proposal => proposal.baseRevision < 0) ↔
      admissions oneCommitted.lifecycle.recorded = []) :=
  stale_audit_iff commitOne_run (fun _ => true) 0

theorem revisions_consecutive_one :
    (admissions oneCommitted.lifecycle.recorded).map (·.resultingRevision) = [1] :=
  (revisions_consecutive commitOne_run).2.1

/-- Against the revision that the commit resulted in, the proposal is stale and the audit flags
nothing. -/
theorem stale_admission_unflagged :
    ¬ ∀ (limits : ProposalQueueLimits) (earlier : List ProposalEvent)
        (events : List SubmissionEvent) (history : CommitHistory) (resolves : String → Bool)
        (committedRevision : Nat),
        Run commitStep (resumed earlier limits) events history →
          AuditsExactly history committedRevision
            (refusesAsStale history.lifecycle resolves committedRevision) := by
  intro always
  have numbers : Numbers 0 oneCommitted :=
    commitOne_run.keeps (fun _ _ _ numbers taken => numbers.step taken)
      (numbers_resumed [] ⟨1, 1⟩)
  have audits := always ⟨1, 1⟩ [] commitOne oneCommitted (fun _ => true) 1 commitOne_run
  have agrees := (numbers.auditsExactly_iff 1 _).mp audits (observation "first", 1)
    List.mem_cons_self
  have stale : refusesAsStale oneCommitted.lifecycle (fun _ => true) 1 (observation "first") :=
    rfl
  exact absurd (agrees.mpr stale) (Nat.lt_irrefl 1)

end Senars.Proposals
