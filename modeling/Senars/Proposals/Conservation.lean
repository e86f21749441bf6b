/-
This file is about where the proposals are that were submitted to a lifecycle. Each of them is
still pending, or was returned as admitted once, or was rejected once, and what was recorded tells
the revision and the counts of the lifecycle.

The log is reduced twice, to a lifecycle and to a replay state. Both take the revision from the
events and count them.
-/

import Senars.Library.Runs
import Senars.Library.StableSort
import Senars.Proposals.Lifecycle

namespace Senars.Proposals

open Library Kernel

/-! ### The reductions of the log -/

namespace ProposalLifecycle

/-- Take a recorded event into account. -/
def rebuildEvent (lifecycle : ProposalLifecycle) : ProposalEvent → ProposalLifecycle
  | .admitted payload _ _ =>
    { lifecycle with
      revision := payload.resultingRevision
      admitted := lifecycle.admitted + 1 }
  | .rejected payload => lifecycle.countRejection payload.reason

/-- Rebuild a lifecycle from recorded events. -/
def fromEvents (events : List ProposalEvent) (limits : ProposalQueueLimits) : ProposalLifecycle :=
  events.foldl rebuildEvent (fresh limits)

end ProposalLifecycle

structure ReplayedAdmission where
  proposalId : String
  kind : ProposalKind
  baseRevision : Nat
  resultingRevision : Nat
  producer : Option String
  declaration : Option RuleDeclaration

structure ReplayedRejection where
  proposalId : String
  kind : ProposalKind
  reason : ProposalRejection
  observedRevision : Nat

structure ProposalReplayState where
  revision : Nat
  admissions : List ReplayedAdmission
  rejections : List ReplayedRejection
  rejectedByReason : OrderedMap ProposalRejection Nat
  declarations : List RuleDeclaration
  schemaVersions : List Nat

structure ProposalReplayError where
  detail : String
  events : List ProposalEvent

def ascending : Comparison Nat where
  le first second := first ≤ second
  total first second := by simpa using Nat.le_total first second
  trans first second third := by simpa using Nat.le_trans

/-- The schema versions of the admissions, each of them once. -/
def recordedSchemaVersions (events : List ProposalEvent) : List Nat :=
  ascending.toSorted <|
    ((ProposalLifecycle.admissions events).map (·.schemaVersion)).foldl addMember []

/-- Replay a recorded event. -/
def replayProposalEvent (state : ProposalReplayState) : ProposalEvent → ProposalReplayState
  | .admitted payload _ _ =>
    { state with
      admissions := state.admissions ++
        [{ proposalId := payload.proposalId
           kind := payload.kind
           baseRevision := payload.baseRevision
           resultingRevision := payload.resultingRevision
           producer := payload.producer
           declaration := payload.declaration }]
      revision := payload.resultingRevision }
  | .rejected payload =>
    { state with
      rejections := state.rejections ++
        [{ proposalId := payload.proposalId
           kind := payload.kind
           reason := payload.reason
           observedRevision := payload.observedRevision }]
      rejectedByReason := state.rejectedByReason.set payload.reason
        ((state.rejectedByReason.get payload.reason).getD 0 + 1) }

/-- Replay a recorded stream. One that was recorded under another schema is refused. -/
def replayProposalStream (events : List ProposalEvent) :
    Except ProposalReplayError ProposalReplayState :=
  let versions := recordedSchemaVersions events
  let incompatible := versions.filter (· ≠ proposalSchemaVersion)
  if incompatible ≠ [] then
    let listed := ", v".intercalate (incompatible.map toString)
    .error
      { detail :=
          s!"stream recorded under schema v{listed} against a core at v{proposalSchemaVersion}"
        events }
  else
    let state := events.foldl replayProposalEvent ⟨0, [], [], .empty, [], versions⟩
    .ok { state with declarations := state.admissions.filterMap (·.declaration) }

/-! ### Runs -/

/-- A lifecycle, the proposals that were submitted to it, those that its admissions returned as
admitted, and the verdicts that were given. -/
structure SubmissionHistory where
  lifecycle : ProposalLifecycle
  submitted : List Proposal := []
  cleared : List Proposal := []
  verdicts : List AdmissionVerdict := []

inductive SubmissionEvent where
  | submit (proposal : Proposal)
  | admitBatch (resolves : String → Bool)
  | cancel (proposalId : String)
  | judge (resolves : String → Bool) (proposal : Proposal)
  | commit (index : Nat) (correlationId : Option String)

/-- What a verdict admits. -/
def AdmissionVerdict.clears : AdmissionVerdict → Option Proposal
  | .admitted proposal => some proposal
  | .refused _ _ _ => none

/-- What a verdict refuses. -/
def AdmissionVerdict.refuses : AdmissionVerdict → Option Proposal
  | .admitted _ => none
  | .refused proposal _ _ => some proposal

/-- One call. A proposal that the schema refuses is not submitted, and only a verdict that was given
can be committed. -/
def submissionStep : Machine SubmissionHistory SubmissionEvent
  | history, .submit proposal =>
    match history.lifecycle.submit proposal with
    | none => some history
    | some (_, lifecycle) =>
      some { history with lifecycle, submitted := history.submitted ++ [proposal] }
  | history, .admitBatch resolves =>
    let (verdicts, lifecycle) := history.lifecycle.admitBatch resolves
    some { history with
      lifecycle
      cleared := history.cleared ++ verdicts.filterMap (·.clears)
      verdicts := history.verdicts ++ verdicts }
  | history, .cancel proposalId =>
    some { history with lifecycle := (history.lifecycle.cancel proposalId).2 }
  | history, .judge resolves proposal =>
    some { history with
      verdicts := history.verdicts ++ [history.lifecycle.judge resolves proposal] }
  | history, .commit index correlationId =>
    history.verdicts[index]?.map fun verdict =>
      { history with lifecycle := (history.lifecycle.commit correlationId verdict).2 }

/-! ### Where a proposal is -/

/-- What a recorded rejection tells of its proposal. -/
def subjectOf (proposal : Proposal) : String × ProposalKind := (proposal.proposalId, proposal.kind)

/-- What the recorded rejections are about. -/
def subjects (events : List ProposalEvent) : List (String × ProposalKind) :=
  events.filterMap fun
    | .admitted _ _ _ => none
    | .rejected payload => some (payload.proposalId, payload.kind)

theorem subjects_append (first second : List ProposalEvent) :
    subjects (first ++ second) = subjects first ++ subjects second :=
  List.filterMap_append

/-- Some proposals are each pending, admitted or the subject of one recorded rejection, the
rejections in the order they were recorded. -/
def Placed (lifecycle : ProposalLifecycle) (submitted cleared : List Proposal) : Prop :=
  ∃ rejected, subjects lifecycle.recorded = rejected.map subjectOf ∧
    submitted.Perm (lifecycle.content ++ lifecycle.rules ++ cleared ++ rejected)

/-- The queues are no longer than their limits. -/
structure Fits (lifecycle : ProposalLifecycle) : Prop where
  content : lifecycle.content.length ≤ lifecycle.limits.maxPendingContent
  rules : lifecycle.rules.length ≤ lifecycle.limits.maxPendingRules

/-- What is recorded, reduced to a lifecycle. -/
structure RebuiltAlike (lifecycle : ProposalLifecycle) : Prop where
  revision : (ProposalLifecycle.fromEvents lifecycle.recorded lifecycle.limits).revision =
    lifecycle.revision
  admitted : (ProposalLifecycle.fromEvents lifecycle.recorded lifecycle.limits).admitted =
    lifecycle.admitted
  rejected : (ProposalLifecycle.fromEvents lifecycle.recorded lifecycle.limits).rejected =
    lifecycle.rejected
  rejections : (ProposalLifecycle.fromEvents lifecycle.recorded lifecycle.limits).rejections =
    lifecycle.rejections

/-- What is recorded, reduced to a replay state. -/
def ReplayedAlike (lifecycle : ProposalLifecycle) : Prop :=
  ∃ state, replayProposalStream lifecycle.recorded = .ok state ∧
    state.revision = lifecycle.revision ∧
    state.admissions.length = lifecycle.admitted ∧
    state.rejections.length = lifecycle.rejected ∧
    state.rejectedByReason = lifecycle.rejections

/-- What holds of a lifecycle after any calls. -/
structure Conserves (history : SubmissionHistory) : Prop where
  placed : Placed history.lifecycle history.submitted history.cleared
  fits : Fits history.lifecycle
  rebuilt : RebuiltAlike history.lifecycle
  replayed : ReplayedAlike history.lifecycle

section

variable {lifecycle next : ProposalLifecycle} {submitted cleared : List Proposal}
  {proposal : Proposal}

theorem subjects_refuse (reason : ProposalRejection) (detail : String) :
    subjects (lifecycle.refuse proposal reason detail).recorded =
      subjects lifecycle.recorded ++ [subjectOf proposal] :=
  subjects_append lifecycle.recorded _

variable {queue added : List Proposal}

theorem Placed.moves {admitted rejected} (placed : Placed lifecycle submitted cleared)
    (recorded : subjects next.recorded = subjects lifecycle.recorded ++ rejected.map subjectOf)
    (queues : (lifecycle.content ++ lifecycle.rules ++ added).Perm
      (next.content ++ next.rules ++ admitted ++ rejected)) :
    Placed next (submitted ++ added) (cleared ++ admitted) := by
  obtain ⟨before, recordedBefore, partition⟩ := placed
  refine ⟨before ++ rejected, ?_, ?_⟩
  · rw [recorded, recordedBefore, List.map_append]
  · rw [List.perm_iff_count] at partition queues ⊢
    intro other
    have early := partition other
    have late := queues other
    simp only [List.count_append] at early late ⊢
    omega

theorem displacedBy_perm (queue : List Proposal) (proposal : Proposal) (capacity : Nat) :
    (queue ++ [proposal]).Perm (pushCapped queue proposal capacity ++
      (ProposalLifecycle.displacedBy queue proposal capacity).toList) := by
  unfold pushCapped ProposalLifecycle.displacedBy
  dsimp only
  split
  · have pushed : queue ++ [proposal] ≠ [] := by simp
    obtain ⟨first, rest, same⟩ := List.exists_cons_of_ne_nil pushed
    rw [same]
    exact (List.perm_append_singleton first rest).symm
  · rw [Option.toList_none, List.append_nil]

theorem length_pushCapped_le {capacity} (fits : queue.length ≤ capacity) :
    (pushCapped queue proposal capacity).length ≤ capacity := by
  unfold pushCapped
  dsimp only
  split
  · rw [List.length_tail, List.length_append, List.length_singleton]
    omega
  · omega

theorem perm_front {pushed others out} (moved : (queue ++ added).Perm (pushed ++ out)) :
    (queue ++ others ++ added).Perm (pushed ++ others ++ [] ++ out) := by
  rw [List.perm_iff_count] at moved ⊢
  intro other
  have same := moved other
  simp only [List.count_append, List.count_nil] at same ⊢
  omega

theorem perm_back {pushed others out} (moved : (queue ++ added).Perm (pushed ++ out)) :
    (others ++ queue ++ added).Perm (others ++ pushed ++ [] ++ out) := by
  have before : (others ++ queue ++ added).Perm (queue ++ others ++ added) :=
    List.perm_append_comm.append_right added
  have after : (pushed ++ others ++ [] ++ out).Perm (others ++ pushed ++ [] ++ out) :=
    (List.perm_append_comm.append_right []).append_right out
  exact (before.trans (perm_front moved)).trans after

/-! ### What each call does to the queues -/

/-- What a call does to the queues and to what is recorded of rejections. -/
structure Moves (before after : ProposalLifecycle) (added admitted rejected : List Proposal) :
    Prop where
  recorded : subjects after.recorded = subjects before.recorded ++ rejected.map subjectOf
  queues : (before.content ++ before.rules ++ added).Perm
    (after.content ++ after.rules ++ admitted ++ rejected)
  fits : Fits before → Fits after

theorem submit_moves {queued} (submitted : lifecycle.submit proposal = some (queued, next)) :
    ∃ rejected, Moves lifecycle next [proposal] [] rejected := by
  unfold ProposalLifecycle.submit at submitted
  split at submitted
  · cases submitted
  · split at submitted
    · split at submitted
      · cases submitted
        exact ⟨[proposal], subjects_refuse _ _, perm_back (.refl _),
          fun fits => ⟨fits.content, fits.rules⟩⟩
      · next room =>
        cases submitted
        refine ⟨[], (List.append_nil _).symm, perm_back ?_, fun fits => ⟨fits.content, ?_⟩⟩
        · rw [List.append_nil]
        · show (lifecycle.rules ++ [proposal]).length ≤ lifecycle.limits.maxPendingRules
          rw [List.length_append, List.length_singleton]
          omega
    · have displaces := displacedBy_perm lifecycle.content proposal
        lifecycle.limits.maxPendingContent
      dsimp only at submitted
      split at submitted
      · next displaced isDisplaced =>
        cases submitted
        rw [isDisplaced] at displaces
        exact ⟨[displaced], subjects_refuse _ _, perm_front displaces,
          fun fits => ⟨length_pushCapped_le fits.content, fits.rules⟩⟩
      · next isDisplaced =>
        cases submitted
        rw [isDisplaced] at displaces
        exact ⟨[], (List.append_nil _).symm, perm_front displaces,
          fun fits => ⟨length_pushCapped_le fits.content, fits.rules⟩⟩

theorem perm_eraseP {named} (found : queue.find? named = some proposal) :
    (queue ++ []).Perm (queue.eraseP named ++ [proposal]) := by
  obtain ⟨isNamed, before, after, rfl, others⟩ := List.find?_eq_some_iff_append.mp found
  rw [List.eraseP_append_right _ (by simpa using others), List.eraseP_cons_of_pos isNamed,
    List.append_nil, List.append_assoc]
  exact (List.perm_append_singleton proposal after).symm.append_left before

theorem cancel_moves (lifecycle : ProposalLifecycle) (proposalId : String) :
    ∃ rejected, Moves lifecycle (lifecycle.cancel proposalId).2 [] [] rejected := by
  unfold ProposalLifecycle.cancel
  dsimp only
  split
  · next proposal found =>
    exact ⟨[proposal], subjects_refuse _ _, perm_front (perm_eraseP found),
      fun fits => ⟨(List.length_eraseP_le).trans fits.content, fits.rules⟩⟩
  · split
    · next proposal found =>
      exact ⟨[proposal], subjects_refuse _ _, perm_back (perm_eraseP found),
        fun fits => ⟨fits.content, (List.length_eraseP_le).trans fits.rules⟩⟩
    · exact ⟨[], (List.append_nil _).symm, perm_front (.refl _), fun fits => fits⟩

theorem refuseVerdicts_spec (verdicts : List AdmissionVerdict) (lifecycle : ProposalLifecycle) :
    let after := verdicts.foldl ProposalLifecycle.refuseVerdict lifecycle
    subjects after.recorded =
        subjects lifecycle.recorded ++ (verdicts.filterMap (·.refuses)).map subjectOf ∧
      after.content = lifecycle.content ∧ after.rules = lifecycle.rules ∧
        after.limits = lifecycle.limits := by
  induction verdicts generalizing lifecycle with
  | nil => exact ⟨(List.append_nil _).symm, rfl, rfl, rfl⟩
  | cons verdict rest ih =>
    obtain ⟨recorded, content, rules, limits⟩ :=
      ih (lifecycle.refuseVerdict verdict)
    cases verdict with
    | admitted proposal => exact ⟨recorded, content, rules, limits⟩
    | refused proposal reason detail =>
      refine ⟨?_, content, rules, limits⟩
      rw [List.foldl_cons, recorded]
      show subjects (lifecycle.refuse proposal reason detail).recorded ++ _ = _
      rw [subjects_refuse, List.append_assoc]
      rfl

theorem judge_about (lifecycle : ProposalLifecycle) (resolves : String → Bool)
    (proposal : Proposal) :
    (lifecycle.judge resolves proposal).clears.toList ++
      (lifecycle.judge resolves proposal).refuses.toList = [proposal] := by
  unfold ProposalLifecycle.judge
  dsimp only
  repeat' split
  all_goals rfl

theorem verdicts_perm (lifecycle : ProposalLifecycle) (resolves : String → Bool)
    (batch : List Proposal) :
    batch.Perm ((batch.map (lifecycle.judge resolves)).filterMap (·.clears) ++
      (batch.map (lifecycle.judge resolves)).filterMap (·.refuses)) := by
  induction batch with
  | nil => exact .refl _
  | cons proposal rest ih =>
    have about := judge_about lifecycle resolves proposal
    rw [List.map_cons]
    cases judged : lifecycle.judge resolves proposal with
    | admitted judgedProposal =>
      rw [judged] at about
      obtain rfl : judgedProposal = proposal := List.singleton_inj.mp about
      exact ih.cons _
    | refused judgedProposal reason detail =>
      rw [judged] at about
      obtain rfl : judgedProposal = proposal := List.singleton_inj.mp about
      exact (ih.cons _).trans List.perm_middle.symm

theorem admitBatch_moves (lifecycle : ProposalLifecycle) (resolves : String → Bool) :
    ∃ rejected, Moves lifecycle (lifecycle.admitBatch resolves).2 []
      ((lifecycle.admitBatch resolves).1.filterMap (·.clears)) rejected := by
  unfold ProposalLifecycle.admitBatch
  obtain ⟨recorded, content, rules, limits⟩ := refuseVerdicts_spec
    ((lifecycle.content ++ lifecycle.rules).map (lifecycle.judge resolves))
    { lifecycle with
      content := []
      rules := []
      allContent := List.forall_mem_nil _
      allRules := List.forall_mem_nil _ }
  refine ⟨_, recorded, ?_, fun fits => ⟨?_, ?_⟩⟩
  · rw [content, rules, List.append_nil]
    exact verdicts_perm lifecycle resolves (lifecycle.content ++ lifecycle.rules)
  · rw [content]
    exact Nat.zero_le _
  · rw [rules]
    exact Nat.zero_le _

theorem commitProposal_moves (lifecycle : ProposalLifecycle) (correlationId : Option String)
    (proposal : Proposal) :
    Moves lifecycle (lifecycle.commitProposal correlationId proposal).2 [] [] [] where
  recorded := subjects_append lifecycle.recorded _
  queues := perm_front (.refl _)
  fits fits := ⟨fits.content, fits.rules⟩

/-! ### What each call does to the log -/

/-- The log, replayed under some versions. -/
def replayFold (events : List ProposalEvent) (versions : List Nat) : ProposalReplayState :=
  events.foldl replayProposalEvent ⟨0, [], [], .empty, [], versions⟩

/-- What a replay state counts. -/
structure Counts (state : ProposalReplayState) (lifecycle : ProposalLifecycle) : Prop where
  revision : state.revision = lifecycle.revision
  admitted : state.admissions.length = lifecycle.admitted
  rejected : state.rejections.length = lifecycle.rejected
  rejectedByReason : state.rejectedByReason = lifecycle.rejections

/-- Both reductions of the log count as the lifecycle does, and all of it is of this schema. -/
structure Logged (lifecycle : ProposalLifecycle) : Prop where
  rebuilt : RebuiltAlike lifecycle
  replayed : ∀ versions, Counts (replayFold lifecycle.recorded versions) lifecycle
  version : ∀ payload ∈ ProposalLifecycle.admissions lifecycle.recorded,
    payload.schemaVersion = proposalSchemaVersion

theorem fromEvents_append (events : List ProposalEvent) (event : ProposalEvent)
    (limits : ProposalQueueLimits) :
    ProposalLifecycle.fromEvents (events ++ [event]) limits =
      (ProposalLifecycle.fromEvents events limits).rebuildEvent event :=
  List.foldl_append

theorem replayFold_append (events : List ProposalEvent) (event : ProposalEvent)
    (versions : List Nat) :
    replayFold (events ++ [event]) versions =
      replayProposalEvent (replayFold events versions) event :=
  List.foldl_append

theorem logged_fresh (limits : ProposalQueueLimits) : Logged (.fresh limits) where
  rebuilt := ⟨rfl, rfl, rfl, rfl⟩
  replayed _ := ⟨rfl, rfl, rfl, rfl⟩
  version _ none := absurd none List.not_mem_nil

theorem Logged.of_same (logged : Logged lifecycle)
    (same : ProposalLifecycle.SameAccounts lifecycle next) : Logged next where
  rebuilt := by
    refine ⟨?_, ?_, ?_, ?_⟩
    · rw [same.recorded, same.limits, same.revision, logged.rebuilt.revision]
    · rw [same.recorded, same.limits, same.admitted, logged.rebuilt.admitted]
    · rw [same.recorded, same.limits, same.rejected, logged.rebuilt.rejected]
    · rw [same.recorded, same.limits, same.rejections, logged.rebuilt.rejections]
  replayed versions := by
    have counts := logged.replayed versions
    rw [same.recorded]
    exact ⟨counts.revision.trans same.revision.symm, counts.admitted.trans same.admitted.symm,
      counts.rejected.trans same.rejected.symm,
      counts.rejectedByReason.trans same.rejections.symm⟩
  version := by
    rw [same.recorded]
    exact logged.version

theorem Logged.refuse (logged : Logged lifecycle) (proposal : Proposal)
    (reason : ProposalRejection) (detail : String) :
    Logged (lifecycle.refuse proposal reason detail) where
  rebuilt := by
    obtain ⟨revision, admitted, rejected, rejections⟩ := logged.rebuilt
    have rebuilds := fromEvents_append lifecycle.recorded
      (.rejected ⟨proposal.proposalId, proposal.kind, reason, detail, lifecycle.revision⟩)
      lifecycle.limits
    refine ⟨?_, ?_, ?_, ?_⟩
    · exact (congrArg (·.revision) rebuilds).trans revision
    · exact (congrArg (·.admitted) rebuilds).trans admitted
    · exact (congrArg (·.rejected) rebuilds).trans (congrArg (· + 1) rejected)
    · refine (congrArg (·.rejections) rebuilds).trans ?_
      show (ProposalLifecycle.fromEvents _ _).rejections.set _ _ = _
      rw [rejections]
      rfl
  replayed versions := by
    obtain ⟨revision, admitted, rejected, rejectedByReason⟩ := logged.replayed versions
    have replays := replayFold_append lifecycle.recorded
      (.rejected ⟨proposal.proposalId, proposal.kind, reason, detail, lifecycle.revision⟩) versions
    refine ⟨?_, ?_, ?_, ?_⟩
    · exact (congrArg (·.revision) replays).trans revision
    · exact (congrArg (·.admissions.length) replays).trans admitted
    · refine (congrArg (·.rejections.length) replays).trans ?_
      exact (List.length_append).trans (congrArg (· + 1) rejected)
    · refine (congrArg (·.rejectedByReason) replays).trans ?_
      show (replayFold _ _).rejectedByReason.set _ _ = _
      rw [rejectedByReason]
      rfl
  version payload member := by
    refine logged.version payload ?_
    rwa [← (ProposalLifecycle.Uncommitted.refl lifecycle).refuse proposal reason detail
      |>.admissions]

theorem Logged.commitProposal (logged : Logged lifecycle) (correlationId : Option String)
    (version : proposal.schemaVersion = proposalSchemaVersion) :
    Logged (lifecycle.commitProposal correlationId proposal).2 where
  rebuilt := by
    obtain ⟨revision, admitted, rejected, rejections⟩ := logged.rebuilt
    have rebuilds := fromEvents_append lifecycle.recorded
      (.admitted (lifecycle.admission proposal) correlationId proposal.proposalId)
      lifecycle.limits
    refine ⟨?_, ?_, ?_, ?_⟩
    · exact congrArg (·.revision) rebuilds
    · exact (congrArg (·.admitted) rebuilds).trans (congrArg (· + 1) admitted)
    · exact (congrArg (·.rejected) rebuilds).trans rejected
    · exact (congrArg (·.rejections) rebuilds).trans rejections
  replayed versions := by
    obtain ⟨revision, admitted, rejected, rejectedByReason⟩ := logged.replayed versions
    have replays := replayFold_append lifecycle.recorded
      (.admitted (lifecycle.admission proposal) correlationId proposal.proposalId) versions
    refine ⟨?_, ?_, ?_, ?_⟩
    · exact congrArg (·.revision) replays
    · refine (congrArg (·.admissions.length) replays).trans ?_
      exact (List.length_append).trans (congrArg (· + 1) admitted)
    · exact (congrArg (·.rejections.length) replays).trans rejected
    · exact (congrArg (·.rejectedByReason) replays).trans rejectedByReason
  version payload member := by
    rw [ProposalLifecycle.commitProposal_admissions] at member
    rcases List.mem_append.mp member with early | last
    · exact logged.version payload early
    · rw [List.mem_singleton.mp last]
      exact version

theorem Logged.requeues (logged : Logged lifecycle)
    (requeues : ProposalLifecycle.Requeues lifecycle next) : Logged next := by
  cases requeues with
  | quiet same => exact logged.of_same same
  | refused same proposal reason detail => exact (logged.of_same same).refuse proposal reason detail

theorem admitBatch_logged (logged : Logged lifecycle) (resolves : String → Bool) :
    Logged (lifecycle.admitBatch resolves).2 := by
  unfold ProposalLifecycle.admitBatch
  refine List.foldlRecOn _ _ (logged.of_same ⟨rfl, rfl, rfl, rfl, rfl, rfl⟩)
    fun after logged verdict _ => ?_
  cases verdict with
  | admitted proposal => exact logged
  | refused proposal reason detail => exact logged.refuse proposal reason detail

theorem replayProposalStream_eq {events} (version : ∀ payload ∈ ProposalLifecycle.admissions events,
      payload.schemaVersion = proposalSchemaVersion) :
    let state := replayFold events (recordedSchemaVersions events)
    replayProposalStream events =
      .ok { state with declarations := state.admissions.filterMap (·.declaration) } := by
  have compatible : (recordedSchemaVersions events).filter (· ≠ proposalSchemaVersion) = [] := by
    refine List.filter_eq_nil_iff.mpr fun recordedVersion isVersion => ?_
    rw [recordedSchemaVersions, Comparison.mem_toSorted] at isVersion
    obtain ⟨payload, isPayload, rfl⟩ := List.mem_map.mp
      ((mem_foldl_addMember.mp isVersion).resolve_left List.not_mem_nil)
    simpa using version payload isPayload
  unfold replayProposalStream
  rw [if_neg fun differs => differs compatible]
  rfl

theorem Logged.replays (logged : Logged lifecycle) : ReplayedAlike lifecycle := by
  obtain ⟨revision, admitted, rejected, rejectedByReason⟩ :=
    logged.replayed (recordedSchemaVersions lifecycle.recorded)
  exact ⟨_, replayProposalStream_eq logged.version, revision, admitted, rejected,
    rejectedByReason⟩

end

/-! ### Any run -/

/-- What each call keeps. A verdict that was given clears proposals of this schema only. -/
structure Accounted (history : SubmissionHistory) : Prop where
  placed : Placed history.lifecycle history.submitted history.cleared
  fits : Fits history.lifecycle
  logged : Logged history.lifecycle
  version : ∀ verdict ∈ history.verdicts, ∀ proposal ∈ verdict.clears,
    proposal.schemaVersion = proposalSchemaVersion

section

variable {history next : SubmissionHistory} {lifecycle : ProposalLifecycle}

theorem judge_version {resolves proposal cleared}
    (clears : cleared ∈ (lifecycle.judge resolves proposal).clears) :
    cleared.schemaVersion = proposalSchemaVersion := by
  unfold ProposalLifecycle.judge at clears
  dsimp only at clears
  split at clears
  · cases clears
  · next sameVersion =>
    repeat' split at clears
    all_goals cases clears
    exact not_not.mp sameVersion

theorem Accounted.moves {added admitted rejected} (accounted : Accounted history)
    (moves : Moves history.lifecycle lifecycle added admitted rejected)
    (logged : Logged lifecycle) (verdicts : List AdmissionVerdict)
    (version : ∀ verdict ∈ verdicts, ∀ proposal ∈ verdict.clears,
      proposal.schemaVersion = proposalSchemaVersion) :
    Accounted
      { history with
        lifecycle
        submitted := history.submitted ++ added
        cleared := history.cleared ++ admitted
        verdicts := history.verdicts ++ verdicts } where
  placed := accounted.placed.moves moves.recorded moves.queues
  fits := moves.fits accounted.fits
  logged
  version verdict isVerdict :=
    (List.mem_append.mp isVerdict).elim (accounted.version verdict) (version verdict)

theorem Accounted.step {event} (accounted : Accounted history)
    (taken : submissionStep history event = some next) : Accounted next := by
  cases event with
  | submit proposal =>
    unfold submissionStep at taken
    dsimp only at taken
    split at taken
    · cases taken
      exact accounted
    · next queued lifecycle submitted =>
      cases taken
      obtain ⟨rejected, moves⟩ := submit_moves submitted
      have logged := accounted.logged.requeues (ProposalLifecycle.submit_requeues submitted)
      have after := accounted.moves moves logged [] (List.forall_mem_nil _)
      rwa [List.append_nil, List.append_nil] at after
  | admitBatch resolves =>
    cases taken
    obtain ⟨rejected, moves⟩ := admitBatch_moves history.lifecycle resolves
    have after := accounted.moves moves (admitBatch_logged accounted.logged resolves)
      (history.lifecycle.admitBatch resolves).1 fun verdict isVerdict proposal clears => by
        obtain ⟨judged, _, rfl⟩ := List.mem_map.mp isVerdict
        exact judge_version clears
    rwa [List.append_nil] at after
  | cancel proposalId =>
    cases taken
    obtain ⟨rejected, moves⟩ := cancel_moves history.lifecycle proposalId
    have logged := accounted.logged.requeues
      (ProposalLifecycle.cancel_requeues history.lifecycle proposalId)
    have after := accounted.moves moves logged [] (List.forall_mem_nil _)
    rwa [List.append_nil, List.append_nil, List.append_nil] at after
  | judge resolves proposal =>
    cases taken
    refine ⟨accounted.placed, accounted.fits, accounted.logged, fun verdict isVerdict => ?_⟩
    rcases List.mem_append.mp isVerdict with early | last
    · exact accounted.version verdict early
    · rw [List.mem_singleton.mp last]
      exact fun cleared clears => judge_version clears
  | commit index correlationId =>
    obtain ⟨verdict, isVerdict, rfl⟩ := Option.map_eq_some_iff.mp taken
    cases verdict with
    | refused proposal reason detail => exact accounted
    | admitted proposal =>
      have version := accounted.version _ (List.mem_of_getElem? isVerdict) proposal rfl
      have after := accounted.moves
        (commitProposal_moves history.lifecycle correlationId proposal)
        (accounted.logged.commitProposal correlationId version) [] (List.forall_mem_nil _)
      rwa [List.append_nil, List.append_nil, List.append_nil] at after

end

/-- After any calls every proposal that was submitted is pending, was returned as admitted by one
admission, or is the subject of one recorded rejection. The queues are within their limits, and
both reductions of what was recorded have the revision and the counts of the lifecycle. -/
theorem conserves_proposals {limits : ProposalQueueLimits} {events : List SubmissionEvent}
    {history : SubmissionHistory}
    (run : Run submissionStep { lifecycle := .fresh limits } events history) :
    Conserves history := by
  have starts : Accounted { lifecycle := .fresh limits } :=
    ⟨⟨[], rfl, .refl _⟩, ⟨Nat.zero_le _, Nat.zero_le _⟩, logged_fresh limits, List.forall_mem_nil _⟩
  have steps : ∀ history event next, Accounted history →
      submissionStep history event = some next → Accounted next :=
    fun _ _ _ accounted taken => accounted.step taken
  have accounted := run.keeps steps starts
  exact ⟨accounted.placed, accounted.fits, accounted.logged.rebuilt, accounted.logged.replays⟩

/-! ### Three observations -/

/-- A proposal of a belief. -/
def observation (proposalId : String) : Proposal where
  proposalId
  schemaVersion := proposalSchemaVersion
  baseRevision := 0
  cyclesPerProposal := 1
  issuedAtCycle := 0
  references := []
  payload := .content { taskType := .belief, term := "bird", truth := none }

/-- The second observation displaces the first one and is committed, and the third is cancelled. -/
def threeObservations : List SubmissionEvent :=
  [.submit (observation "first"), .submit (observation "second"), .admitBatch fun _ => true,
    .commit 0 none, .submit (observation "third"), .cancel "third"]

/-- The history of some calls to a lifecycle with room for one proposal of each kind. -/
def oneOfEach (events : List SubmissionEvent) : SubmissionHistory :=
  (execute submissionStep { lifecycle := .fresh ⟨1, 1⟩ } events).getD
    { lifecycle := .fresh ⟨1, 1⟩ }

theorem conserves_proposals_three : Conserves (oneOfEach threeObservations) := by
  have run : Run submissionStep { lifecycle := .fresh ⟨1, 1⟩ } threeObservations
      (oneOfEach threeObservations) := run_of_execute rfl
  exact conserves_proposals run

end Senars.Proposals
