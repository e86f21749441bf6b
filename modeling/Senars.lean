import Senars.Unify.Metta
import Senars.Grammar.RoundTrip
import Senars.SystemOne.SafetyFloor
import Senars.SystemOne.SlotConservation
import Senars.Connections.FloodProtection
import Senars.Control.DerivationBound
import Senars.Rules.Provenance
import Senars.Rules.MetaDepth
import Senars.Query.Answers
import Senars.Rules.StrongRules
import Senars.Terms.Confluence
import Senars.Kernel.PerceptionGate
import Senars.State.Checkpoint
import Senars.Storage.RecentRows
import Senars.Cycle.Handover
import Senars.Proposals.TableReplay
import Senars.Proposals.Premises
import Senars.Proposals.StaleAudit
import Senars.Async.LaneOrder
import Senars.Learning.AikrProcessor
import Senars.Cycle.ToolGoals
import Senars.Terms.Overlap
import Senars.Terms.StampCounter
import Senars.Bag.Sampling
import Senars.Memory.RoundTrip
import Senars.EventLog.Backends
import Senars.EventLog.Subscription
import Senars.Proposals.Dispatch
import Senars.Control.ScopeAccounts
import Senars.Kernel.ReputationLoad
import Senars.Metta.EGraph
import Senars.Metta.Acceptance
import Senars.Metta.TypeChecker
import Senars.Storage.RecordsSince
import Senars.Episodic.IndexAgreement
import Senars.Derivations.Truncation
import Senars.Rules.RecordedLineage
import Senars.Threads.DefaultSpawn
import Senars.Links.LayerIndex
import Senars.CoActivation.Counters
import Senars.CoActivation.PerTerm
import Senars.Memory.Shedding
import Senars.Rules.SymmetricElimination
import Senars.Metta.Interpreter
import Senars.Terms.OperationRoundTrip
import Senars.Prolog.Completeness
import Senars.Async.CircuitBreaker
import Senars.Control.TaskManager
import Senars.Learning.QTable
import Senars.SystemOne.ShortCircuit
import Senars.UiContract.AddressRoundTrip
import Senars.Query.Derivation
import Senars.SystemOne.CalibrationLaws
import Senars.Async.Approval
import Senars.Query.Trace
import Senars.Governance.RecordedDecision
import Senars.Async.RateLimiter
import Senars.Reflex.WeightedQuorum
import Senars.Governance.ProposalBag
import Senars.Async.StrategyTimeout
import Senars.Util.ExtractJson
import Senars.Util.StableDigest
import Senars.Util.TruncateBytes
import Senars.Util.BoundedReads
import Senars.Util.Ids
