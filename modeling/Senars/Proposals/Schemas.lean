/-
This file is the wire contract of the proposal seam: the proposals, the rule
declarations and the table they become, and the events that are recorded of both.

The stamps of time and the identifiers that are made on the spot are left out: a
correlation id is there where the caller gives one.
-/

import Senars.Kernel.Gate

namespace Senars.Proposals

open Library Library.JsNumber Kernel

def nonEmpty (text : String) : Bool := text ≠ ""

/-- A number, as the schemas have it: one that is finite. -/
def isFinite : JsNumber → Bool
  | .finite _ => true
  | _ => false

/-! ### The rule table -/

def ruleTableSchemaVersion : Nat := 1

def builtinRuleArtifactVersion : String := "builtin/1"

/-- The term kinds a rule is dispatched on. -/
structure RulePattern where
  left : String
  right : String
  deriving DecidableEq

def RulePattern.valid (pattern : RulePattern) : Bool :=
  nonEmpty pattern.left && nonEmpty pattern.right

structure RuleDeclaration extends RulePattern where
  ruleId : String
  description : String
  truthFn : String
  body : String
  priority : JsNumber
  taskType : Option TaskType := none
  deriving DecidableEq

inductive RuleProvenance where
  | builtin
  | proposal (proposalId : String) (producer : Option String)
  | imported (source : String)
  deriving DecidableEq

structure RuleArtifactEntry extends RuleDeclaration where
  artifactVersion : String
  ruleSetRevision : Nat
  parentRevision : Option Nat
  ruleSchemaVersion : Nat
  provenance : RuleProvenance
  eventId : Option String := none
  deriving DecidableEq

structure RuleTable where
  schemaVersion : Nat
  artifactVersion : String
  revision : Nat
  entries : List RuleArtifactEntry
  deriving DecidableEq

def RuleDeclaration.valid (declaration : RuleDeclaration) : Bool :=
  nonEmpty declaration.ruleId && declaration.toRulePattern.valid && nonEmpty declaration.truthFn &&
    nonEmpty declaration.body && isFinite declaration.priority

def RuleProvenance.valid : RuleProvenance → Bool
  | .builtin => true
  | .proposal proposalId producer => nonEmpty proposalId && producer.all nonEmpty
  | .imported source => nonEmpty source

def RuleArtifactEntry.valid (entry : RuleArtifactEntry) : Bool :=
  entry.toRuleDeclaration.valid && nonEmpty entry.artifactVersion && entry.ruleSchemaVersion ≠ 0 &&
    entry.provenance.valid

def validateRuleTable (table : RuleTable) : Bool :=
  table.schemaVersion ≠ 0 && nonEmpty table.artifactVersion &&
    table.entries.all RuleArtifactEntry.valid

inductive RuleTableRejection where
  | schemaVersion | artifactVersion | duplicateRuleId | unresolvedBody | emptyId
  deriving DecidableEq

structure RuleTableFault where
  ruleId : String
  reason : RuleTableRejection
  detail : String
  deriving DecidableEq

/-! ### Proposals -/

def proposalSchemaVersion : Nat := 2

inductive ProposalKind where
  | content | rule
  deriving DecidableEq

structure Envelope where
  proposalId : String
  schemaVersion : Nat
  baseRevision : Nat
  cyclesPerProposal : Nat
  issuedAtCycle : Nat
  references : List String
  deriving DecidableEq

structure ContentPayload where
  taskType : TaskType
  term : String
  truth : Option BeliefTruth
  deriving DecidableEq

structure RulePayload where
  ruleId : String
  name : String
  pattern : RulePattern
  truthFn : String
  priority : JsNumber
  body : Option String
  symbolicFallback : Option String
  deriving DecidableEq

inductive Payload where
  | content (payload : ContentPayload)
  | rule (payload : RulePayload)
  deriving DecidableEq

structure Proposal extends Envelope where
  payload : Payload
  deriving DecidableEq

def Proposal.kind (proposal : Proposal) : ProposalKind :=
  match proposal.payload with
  | .content _ => .content
  | .rule _ => .rule

def Envelope.valid (envelope : Envelope) : Bool :=
  nonEmpty envelope.proposalId && envelope.schemaVersion ≠ 0 && envelope.cyclesPerProposal ≠ 0

def Payload.valid : Payload → Bool
  | .content payload => nonEmpty payload.term && payload.truth.all BeliefTruth.valid
  | .rule payload =>
    nonEmpty payload.ruleId && nonEmpty payload.name && payload.pattern.valid &&
      nonEmpty payload.truthFn && unitInterval payload.priority

/-- The schema a proposal is checked against. -/
def validateProposal (proposal : Proposal) : Bool :=
  proposal.toEnvelope.valid && proposal.payload.valid

inductive ProposalRejection where
  | schemaVersion | staleRevision | evictedReference | queueOverflow | cancelled | failedSchema
  deriving DecidableEq

/-! ### Events -/

/-- The payload of a `proposal.admitted` event. -/
structure ProposalAdmitted where
  proposalId : String
  kind : ProposalKind
  schemaVersion : Nat
  baseRevision : Nat
  resultingRevision : Nat
  declaration : Option RuleDeclaration := none
  producer : Option String := none
  deriving DecidableEq

/-- The payload of a `proposal.rejected` event. -/
structure ProposalRejected where
  proposalId : String
  kind : ProposalKind
  reason : ProposalRejection
  detail : String
  observedRevision : Nat
  deriving DecidableEq

inductive ProposalEvent where
  | admitted (payload : ProposalAdmitted) (correlationId : Option String) (causationId : String)
  | rejected (payload : ProposalRejected)
  deriving DecidableEq

end Senars.Proposals
