/-
This file is the boundary of the producer: settled derivations become content
proposals, what is queued is judged as one batch, and what clears is committed. A
content proposal that clears lands as its task, a rule proposal as a declaration in
the rule table.

A commit is recorded before the table is asked. A declaration the table refuses
throws there, and what is behind it in the batch is lost.
-/

import Senars.Library.Runs
import Senars.Proposals.Lifecycle
import Senars.Proposals.RuleTable

namespace Senars.Proposals

open Library Kernel ProposalLifecycle

variable {Body : Type} {bodies : RuleBodies Body}

/-- What the boundary reads of a derived task. -/
structure DerivedTask where
  taskType : TaskType
  term : String
  truth : Option TermTruth
  stampId : String
  deriving DecidableEq

/-- A rule proposal as a declaration. One without a body throws. -/
def declarationOf (payload : RulePayload) : Option RuleDeclaration :=
  match payload.body with
  | none => none
  | some body =>
    if body = "" then none
    else some
      { ruleId := payload.ruleId
        description := payload.name
        left := payload.pattern.left
        right := payload.pattern.right
        truthFn := payload.truthFn
        body
        priority := payload.priority }

/-- The lifecycle of the proposals, and the table the rules go to. -/
structure Seam (bodies : RuleBodies Body) where
  lifecycle : ProposalLifecycle
  table : RuleTableStore bodies

def proposalOf (lifecycle : ProposalLifecycle) (cyclesPerProposal : Nat) (task : DerivedTask)
    (references : List String) : Proposal where
  proposalId := s!"prop-{task.stampId}"
  schemaVersion := proposalSchemaVersion
  baseRevision := lifecycle.revision
  cyclesPerProposal
  issuedAtCycle := 0
  references
  payload := .content
    { taskType := task.taskType
      term := task.term
      truth := task.truth.map asBeliefTruth }

/-- Submit settled derivations, and remember which task each queued proposal stands for. What
the schema refuses throws. -/
def submitSettled (cyclesPerProposal : Nat) :
    ProposalLifecycle → OrderedMap String DerivedTask → List (DerivedTask × List String) →
      ProposalLifecycle × Option (OrderedMap String DerivedTask)
  | lifecycle, landed, [] => (lifecycle, some landed)
  | lifecycle, landed, (task, references) :: rest =>
    let proposal := proposalOf lifecycle cyclesPerProposal task references
    match lifecycle.submit proposal with
    | none => (lifecycle, none)
    | some (queued, lifecycle) =>
      submitSettled cyclesPerProposal lifecycle
        (if queued then landed.set proposal.proposalId task else landed) rest

/-- Commit a rule proposal and hand its declaration to the table. -/
def landRule (seam : Seam bodies) (correlationId : Option String) (proposal : Proposal)
    (payload : RulePayload) : Seam bodies × Bool :=
  let (revision, lifecycle) := seam.lifecycle.commitProposal correlationId proposal
  match declarationOf payload with
  | none => ({ seam with lifecycle }, false)
  | some declaration =>
    match seam.table.admitDeclaration declaration revision proposal.baseRevision
        { proposalId := proposal.proposalId } with
    | .ok table => ({ lifecycle, table }, true)
    | .error _ => ({ seam with lifecycle }, false)

/-- What lands of one verdict. Nothing, where it throws. -/
def landVerdict (landed : OrderedMap String DerivedTask) (seam : Seam bodies) :
    AdmissionVerdict → Seam bodies × Option (List DerivedTask)
  | .refused _ _ _ => (seam, some [])
  | .admitted proposal =>
    match proposal.payload with
    | .rule payload =>
      match landRule seam none proposal payload with
      | (seam, true) => (seam, some [])
      | (seam, false) => (seam, none)
    | .content _ =>
      match landed.get proposal.proposalId with
      | none => (seam, some [])
      | some task =>
        let (_, lifecycle) := seam.lifecycle.commitProposal (some task.stampId) proposal
        ({ seam with lifecycle }, some [task])

/-- What lands of a batch. -/
def land (landed : OrderedMap String DerivedTask) :
    Seam bodies → List AdmissionVerdict → Seam bodies × Option (List DerivedTask)
  | seam, [] => (seam, some [])
  | seam, verdict :: rest =>
    match landVerdict landed seam verdict with
    | (seam, none) => (seam, none)
    | (seam, some tasks) =>
      match land landed seam rest with
      | (seam, none) => (seam, none)
      | (seam, some later) => (seam, some (tasks ++ later))

variable {landed : OrderedMap String DerivedTask} {seam next : Seam bodies}

theorem land_of_thrown {verdict} (threw : landVerdict landed seam verdict = (next, none))
    (rest : List AdmissionVerdict) : land landed seam (verdict :: rest) = (next, none) := by
  rw [land, threw]

theorem land_of_landed {verdict tasks}
    (took : landVerdict landed seam verdict = (next, some tasks)) (rest : List AdmissionVerdict) :
    land landed seam (verdict :: rest) =
      ((land landed next rest).1, (land landed next rest).2.map (tasks ++ ·)) := by
  rw [land, took]
  dsimp only
  rcases land landed next rest with ⟨last, _ | later⟩ <;> rfl

theorem land_append {first tasks} (took : land landed seam first = (next, some tasks))
    (second : List AdmissionVerdict) :
    land landed seam (first ++ second) =
      ((land landed next second).1, (land landed next second).2.map (tasks ++ ·)) := by
  induction first generalizing seam tasks with
  | nil =>
    cases took
    rw [List.nil_append]
    rcases land landed next second with ⟨last, _ | later⟩ <;> rfl
  | cons verdict rest ih =>
    rw [List.cons_append]
    rcases taken : landVerdict landed seam verdict with ⟨between, _ | early⟩
    · rw [land_of_thrown taken] at took
      cases took
    · rw [land_of_landed taken] at took ⊢
      rcases later : land landed between rest with ⟨last, _ | late⟩
      · rw [later] at took
        cases took
      · rw [later] at took
        cases took
        rw [ih later]
        refine Prod.ext rfl ?_
        rw [Option.map_map]
        exact congrArg (Option.map · _) (funext fun latest => (List.append_assoc _ _ _).symm)

/-- The declared boundary. No tasks are returned where it throws. -/
def takeDerived (cyclesPerProposal : Nat) (seam : Seam bodies)
    (settled : List (DerivedTask × List String)) (resolves : String → Bool) :
    Seam bodies × Option (List DerivedTask) :=
  match submitSettled cyclesPerProposal seam.lifecycle OrderedMap.empty settled with
  | (lifecycle, none) => ({ seam with lifecycle }, none)
  | (lifecycle, some landed) =>
    let (verdicts, lifecycle) := lifecycle.admitBatch resolves
    land landed { seam with lifecycle } verdicts

end Senars.Proposals
