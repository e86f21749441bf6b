/-
This file is the lifecycle of a proposal: two queues with their own overflow, the
judgement of what is queued against the committed revision, and the commit, which
advances the revision. Every rejection and every commit is recorded.

The sink of the events is the list of what was recorded, a part of the state.
-/

import Senars.Library.OrderedMap
import Senars.Proposals.Schemas

namespace Senars.Proposals

open Library Kernel

structure ProposalQueueLimits where
  maxPendingContent : Nat
  maxPendingRules : Nat

def defaultQueueLimits : ProposalQueueLimits where
  maxPendingContent := 64
  maxPendingRules := 16

inductive AdmissionVerdict where
  | admitted (proposal : Proposal)
  | refused (proposal : Proposal) (reason : ProposalRejection) (detail : String)

/-- The queues, each with its kind of proposals, the committed revision, the counters and what
was recorded. -/
structure ProposalLifecycle where
  limits : ProposalQueueLimits
  content : List Proposal := []
  rules : List Proposal := []
  revision : Nat := 0
  contentDropped : Nat := 0
  rulesRefused : Nat := 0
  rejected : Nat := 0
  admitted : Nat := 0
  rejections : OrderedMap ProposalRejection Nat := OrderedMap.empty
  recorded : List ProposalEvent := []
  allContent : ∀ proposal ∈ content, proposal.kind = .content
  allRules : ∀ proposal ∈ rules, proposal.kind = .rule

namespace ProposalLifecycle

/-- A lifecycle with nothing queued, committed or recorded. -/
def fresh (limits : ProposalQueueLimits) : ProposalLifecycle where
  limits
  allContent := List.forall_mem_nil _
  allRules := List.forall_mem_nil _

def countRejection (lifecycle : ProposalLifecycle) (reason : ProposalRejection) :
    ProposalLifecycle :=
  { lifecycle with
    rejected := lifecycle.rejected + 1
    rejections := lifecycle.rejections.set reason ((lifecycle.rejections.get reason).getD 0 + 1) }

def record (lifecycle : ProposalLifecycle) (event : ProposalEvent) : ProposalLifecycle :=
  { lifecycle with recorded := lifecycle.recorded ++ [event] }

def refuse (lifecycle : ProposalLifecycle) (proposal : Proposal) (reason : ProposalRejection)
    (detail : String) : ProposalLifecycle :=
  (lifecycle.countRejection reason).record <| .rejected
    { proposalId := proposal.proposalId
      kind := proposal.kind
      reason
      detail
      observedRevision := lifecycle.revision }

/-- What a proposal pushed to a queue displaces. -/
def displacedBy (queue : List Proposal) (proposal : Proposal) (capacity : Nat) : Option Proposal :=
  let pushed := queue ++ [proposal]
  if capacity < pushed.length then pushed.head? else none

variable {proposal : Proposal}

theorem mem_append_single {kind queue} (queued : ∀ other ∈ queue, other.kind = kind)
    (same : proposal.kind = kind) : ∀ other ∈ queue ++ [proposal], other.kind = kind := by
  intro other member
  rcases List.mem_append.mp member with early | last
  · exact queued other early
  · exact (List.mem_singleton.mp last) ▸ same

/-- Queue a proposal. One that the schema refuses throws. -/
def submit (lifecycle : ProposalLifecycle) (proposal : Proposal) :
    Option (Bool × ProposalLifecycle) :=
  if !validateProposal proposal then none
  else some <|
    match kind : proposal.kind with
    | .rule =>
      if lifecycle.limits.maxPendingRules ≤ lifecycle.rules.length then
        (false, { lifecycle with rulesRefused := lifecycle.rulesRefused + 1 }.refuse proposal
          .queueOverflow s!"rule queue full at {lifecycle.limits.maxPendingRules}")
      else
        (true,
          { lifecycle with
            rules := lifecycle.rules ++ [proposal]
            allRules := mem_append_single lifecycle.allRules kind })
    | .content =>
      let displaced := displacedBy lifecycle.content proposal lifecycle.limits.maxPendingContent
      let lifecycle :=
        { lifecycle with
          content := pushCapped lifecycle.content proposal lifecycle.limits.maxPendingContent
          allContent := fun _ member =>
            (mem_pushCapped member).elim (lifecycle.allContent _) fun same => same ▸ kind }
      match displaced with
      | some displaced =>
        (true, { lifecycle with contentDropped := lifecycle.contentDropped + 1 }.refuse displaced
          .queueOverflow "content drop-oldest")
      | none => (true, lifecycle)

def pending (lifecycle : ProposalLifecycle) : Nat :=
  lifecycle.content.length + lifecycle.rules.length

/-- What is wrong with a rule payload at the boundary. -/
def withoutBody : Payload → Bool
  | .rule payload => payload.body.all (· = "")
  | .content _ => false

/-- Whether a proposal applies. It changes nothing. -/
def judge (lifecycle : ProposalLifecycle) (resolves : String → Bool) (proposal : Proposal) :
    AdmissionVerdict :=
  let refused := AdmissionVerdict.refused proposal
  let missing := proposal.references.filter fun reference => !resolves reference
  if proposal.schemaVersion ≠ proposalSchemaVersion then
    refused .schemaVersion
      s!"schema v{proposal.schemaVersion} against a core at v{proposalSchemaVersion}"
  else if proposal.baseRevision ≠ lifecycle.revision then
    refused .staleRevision
      s!"base r{proposal.baseRevision} against committed r{lifecycle.revision}"
  else if missing ≠ [] then
    refused .evictedReference ("unresolved: " ++ ", ".intercalate missing)
  else if withoutBody proposal.payload then
    refused .failedSchema "a rule proposal requires a body"
  else .admitted proposal

/-- Record the rejection of what did not clear. -/
def refuseVerdict (lifecycle : ProposalLifecycle) : AdmissionVerdict → ProposalLifecycle
  | .admitted _ => lifecycle
  | .refused proposal reason detail => lifecycle.refuse proposal reason detail

/-- Drain what is queued, and judge it. -/
def admitBatch (lifecycle : ProposalLifecycle) (resolves : String → Bool) :
    List AdmissionVerdict × ProposalLifecycle :=
  let batch := lifecycle.content ++ lifecycle.rules
  let verdicts := batch.map (lifecycle.judge resolves)
  let drained : ProposalLifecycle :=
    { lifecycle with
      content := []
      rules := []
      allContent := List.forall_mem_nil _
      allRules := List.forall_mem_nil _ }
  (verdicts, verdicts.foldl refuseVerdict drained)

/-- The payload of the event that a proposal is admitted. -/
def admission (lifecycle : ProposalLifecycle) (proposal : Proposal) : ProposalAdmitted where
  proposalId := proposal.proposalId
  kind := proposal.kind
  schemaVersion := proposal.schemaVersion
  baseRevision := proposal.baseRevision
  resultingRevision := lifecycle.revision + 1

/-- The committed transition: one proposal, one event, one revision. -/
def commitProposal (lifecycle : ProposalLifecycle) (correlationId : Option String)
    (proposal : Proposal) : Nat × ProposalLifecycle :=
  let revision := lifecycle.revision + 1
  (revision,
    { lifecycle with
      admitted := lifecycle.admitted + 1
      revision }.record
        (.admitted (lifecycle.admission proposal) correlationId proposal.proposalId))

/-- Commit a verdict. One that is a refusal has no revision. -/
def commit (lifecycle : ProposalLifecycle) (correlationId : Option String) :
    AdmissionVerdict → Option Nat × ProposalLifecycle
  | .refused _ _ _ => (none, lifecycle)
  | .admitted proposal =>
    let (revision, lifecycle) := lifecycle.commitProposal correlationId proposal
    (some revision, lifecycle)

/-- Withdraw a queued proposal, the first of its name. -/
def cancel (lifecycle : ProposalLifecycle) (proposalId : String) : Bool × ProposalLifecycle :=
  let named (proposal : Proposal) : Bool := proposal.proposalId = proposalId
  match lifecycle.content.find? named with
  | some proposal =>
    (true,
      { lifecycle with
        content := lifecycle.content.eraseP named
        allContent := fun other member =>
          lifecycle.allContent other (List.mem_of_mem_eraseP member) }.refuse
        proposal .cancelled "cancelled before the boundary")
  | none =>
    match lifecycle.rules.find? named with
    | some proposal =>
      (true,
        { lifecycle with
          rules := lifecycle.rules.eraseP named
          allRules := fun other member =>
            lifecycle.allRules other (List.mem_of_mem_eraseP member) }.refuse
          proposal .cancelled "cancelled before the boundary")
    | none => (false, lifecycle)

/-! ### What is recorded -/

/-- The admissions among events. -/
def admissions (events : List ProposalEvent) : List ProposalAdmitted :=
  events.filterMap fun
    | .admitted payload _ _ => some payload
    | .rejected _ => none

@[simp] theorem admissions_append (first second : List ProposalEvent) :
    admissions (first ++ second) = admissions first ++ admissions second :=
  List.filterMap_append

/-- Nothing is committed from one state to another. -/
structure Uncommitted (before after : ProposalLifecycle) : Prop where
  revision : after.revision = before.revision
  admissions : admissions after.recorded = admissions before.recorded

theorem Uncommitted.refl (lifecycle : ProposalLifecycle) : Uncommitted lifecycle lifecycle :=
  ⟨rfl, rfl⟩

theorem Uncommitted.trans {first second third} (early : Uncommitted first second)
    (late : Uncommitted second third) : Uncommitted first third :=
  ⟨late.revision.trans early.revision, late.admissions.trans early.admissions⟩

theorem Uncommitted.refuse {before current} (early : Uncommitted before current)
    (proposal : Proposal) (reason : ProposalRejection) (detail : String) :
    Uncommitted before (current.refuse proposal reason detail) where
  revision := early.revision
  admissions := by
    show ProposalLifecycle.admissions (current.recorded ++ [_]) = _
    rw [admissions_append, early.admissions]
    exact List.append_nil _

theorem Uncommitted.refuseVerdicts {before current} (early : Uncommitted before current)
    (verdicts : List AdmissionVerdict) :
    Uncommitted before (verdicts.foldl refuseVerdict current) := by
  induction verdicts generalizing current with
  | nil => exact early
  | cons verdict rest ih =>
    refine ih ?_
    cases verdict with
    | admitted proposal => exact early
    | refused proposal reason detail => exact early.refuse proposal reason detail

/-- All but the queues, and what is counted of them, is the same. -/
structure SameAccounts (before after : ProposalLifecycle) : Prop where
  recorded : after.recorded = before.recorded
  limits : after.limits = before.limits
  revision : after.revision = before.revision
  admitted : after.admitted = before.admitted
  rejected : after.rejected = before.rejected
  rejections : after.rejections = before.rejections

/-- What a call does that changes the queues: it refuses a proposal or none. -/
inductive Requeues (before : ProposalLifecycle) : ProposalLifecycle → Prop
  | quiet {after : ProposalLifecycle} (same : SameAccounts before after) : Requeues before after
  | refused {after : ProposalLifecycle} (same : SameAccounts before after) (proposal : Proposal)
      (reason : ProposalRejection) (detail : String) :
      Requeues before (after.refuse proposal reason detail)

theorem submit_requeues {lifecycle next queued}
    (submitted : lifecycle.submit proposal = some (queued, next)) : Requeues lifecycle next := by
  unfold submit at submitted
  split at submitted
  · cases submitted
  · split at submitted
    · split at submitted
      · cases submitted
        refine .refused ?_ _ _ _
        exact ⟨rfl, rfl, rfl, rfl, rfl, rfl⟩
      · cases submitted
        exact .quiet ⟨rfl, rfl, rfl, rfl, rfl, rfl⟩
    · dsimp only at submitted
      split at submitted
      · cases submitted
        refine .refused ?_ _ _ _
        exact ⟨rfl, rfl, rfl, rfl, rfl, rfl⟩
      · cases submitted
        exact .quiet ⟨rfl, rfl, rfl, rfl, rfl, rfl⟩

theorem cancel_requeues (lifecycle : ProposalLifecycle) (proposalId : String) :
    Requeues lifecycle (lifecycle.cancel proposalId).2 := by
  unfold cancel
  dsimp only
  split
  · refine .refused ?_ _ _ _
    exact ⟨rfl, rfl, rfl, rfl, rfl, rfl⟩
  · split
    · refine .refused ?_ _ _ _
      exact ⟨rfl, rfl, rfl, rfl, rfl, rfl⟩
    · exact .quiet ⟨rfl, rfl, rfl, rfl, rfl, rfl⟩

theorem SameAccounts.uncommitted {before after} (same : SameAccounts before after) :
    Uncommitted before after :=
  ⟨same.revision, congrArg _ same.recorded⟩

theorem Requeues.uncommitted {before after} (requeues : Requeues before after) :
    Uncommitted before after := by
  cases requeues with
  | quiet same => exact same.uncommitted
  | refused same proposal reason detail => exact same.uncommitted.refuse proposal reason detail

theorem submit_uncommitted {lifecycle next queued}
    (submitted : lifecycle.submit proposal = some (queued, next)) : Uncommitted lifecycle next :=
  (submit_requeues submitted).uncommitted

theorem cancel_uncommitted (lifecycle : ProposalLifecycle) (proposalId : String) :
    Uncommitted lifecycle (lifecycle.cancel proposalId).2 :=
  (cancel_requeues lifecycle proposalId).uncommitted

theorem admitBatch_uncommitted (lifecycle : ProposalLifecycle) (resolves : String → Bool) :
    Uncommitted lifecycle (lifecycle.admitBatch resolves).2 := by
  refine Uncommitted.refuseVerdicts ?_ _
  exact ⟨rfl, rfl⟩

@[simp] theorem commitProposal_revision (lifecycle : ProposalLifecycle)
    (correlationId : Option String) (proposal : Proposal) :
    (lifecycle.commitProposal correlationId proposal).2.revision = lifecycle.revision + 1 := rfl

@[simp] theorem commitProposal_admissions (lifecycle : ProposalLifecycle)
    (correlationId : Option String) (proposal : Proposal) :
    admissions (lifecycle.commitProposal correlationId proposal).2.recorded =
      admissions lifecycle.recorded ++ [lifecycle.admission proposal] := by
  show admissions (lifecycle.recorded ++ [_]) = _
  rw [admissions_append]
  rfl

end ProposalLifecycle

end Senars.Proposals
