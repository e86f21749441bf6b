/-
This file is the event log and its two stores. One keeps the events themselves in the order
they were appended; the other keeps a row of columns for each of them and builds the event
anew from its row.
-/

import Senars.Library.JsNumber
import Senars.Library.Runs
import Senars.Library.StableSort
import Mathlib.Data.Rat.Floor
import Mathlib.Order.BoundedOrder.Basic

namespace Senars.EventLog

open Library Library.JsNumber

/-! ### Events -/

inductive EngineOrigin where
  | nar
  | kernel
  | proposer
  deriving DecidableEq

/-- An event. All of its fields but the identifier, the type and the time may be missing. The last
two are those of an event that closes a cycle. -/
structure CognitiveEvent (Id Payload : Type) where
  id : Id
  type : String
  payload : Payload
  timestamp : ℕ
  correlationId : Option String
  causationId : Option String := none
  engine : Option EngineOrigin
  cycle : Option ℚ := none
  derived : Option ℚ := none
  deriving DecidableEq

variable {Id Payload : Type}

/-- The schema of all events. -/
def CognitiveEvent.base (event : CognitiveEvent Id Payload) : Bool :=
  event.engine.isSome && decide (0 < event.timestamp) && event.correlationId.isSome

/-- Whether an event is one of the schema: it has the fields of all events and what the variant of
its type asks for. -/
def validateCognitiveEvent (variant : CognitiveEvent Id Payload → Bool)
    (event : CognitiveEvent Id Payload) : Bool :=
  event.base && variant event

/-- An event before it is appended. -/
structure Draft (Payload : Type) where
  type : String
  payload : Payload
  correlationId : Option String
  causationId : Option String := none
  engine : Option EngineOrigin
  cycle : Option ℚ := none
  derived : Option ℚ := none
  deriving DecidableEq

/-- The event with its identifier and its time. -/
def Draft.stamped (draft : Draft Payload) (id : Id) (now : ℕ) : CognitiveEvent Id Payload where
  id
  type := draft.type
  payload := draft.payload
  timestamp := now
  correlationId := draft.correlationId
  causationId := draft.causationId
  engine := draft.engine
  cycle := draft.cycle
  derived := draft.derived

/-! ### What a log refuses -/

inductive EventLogError where
  | invalid
  | invalidEvent (message : String)
  | full (message : String)
  deriving DecidableEq

structure EventLogLimits where
  maxEvents : ℕ := 100000
  maxEventSize : ℕ := 1024 * 1024

/-- The length of a string of the script, where a character outside the basic plane counts
twice. -/
def scriptLength (text : String) : ℕ :=
  (text.toList.map fun char => if char.val ≤ 0xFFFF then 1 else 2).sum

/-- Why a log of a size does not take an event, if it does not. -/
def assertAppendable (limits : EventLogLimits) (payloadJson : String) (size : ℕ) :
    Except EventLogError Unit :=
  let eventSize := scriptLength payloadJson
  if limits.maxEventSize < eventSize then
    .error (.invalidEvent s!"Event size {eventSize} exceeds max {limits.maxEventSize}")
  else if limits.maxEvents ≤ size then
    .error (.full s!"Event log full ({limits.maxEvents} events)")
  else .ok ()

/-! ### Queries -/

structure EventLogQuery where
  correlationId : Option String := none
  types : Option (List String) := none
  timeRange : Option (JsNumber × JsNumber) := none
  limit : Option JsNumber := none

/-- An allowlist of types, or none where it is empty. -/
def typeSetOf (types : Option (List String)) : Option (List String) :=
  types.filter fun types => types ≠ []

/-- Whether an event is none of those a query leaves out. -/
def passes (query : EventLogQuery) (event : CognitiveEvent Id Payload) : Bool :=
  (query.correlationId.filter (· ≠ "")).all (event.correlationId = some ·) &&
    (typeSetOf query.types).all (event.type ∈ ·) &&
    query.timeRange.all fun range =>
      !(less (.finite event.timestamp) range.1 || less range.2 (.finite event.timestamp))

/-! ### The log in memory -/

/-- The log in memory: the events in the order they were appended. -/
abbrev InMemoryEventLog (Id Payload : Type) := List (CognitiveEvent Id Payload)

namespace InMemoryEventLog

/-- Go back through the events from the last one until there are as many matches as a limit. -/
def scanBack (query : EventLogQuery) :
    List (CognitiveEvent Id Payload) → List (CognitiveEvent Id Payload) →
      List (CognitiveEvent Id Payload)
  | found, [] => found
  | found, event :: older =>
    if query.limit.all fun limit => less (.finite found.length) limit then
      scanBack query (if passes query event then event :: found else found) older
    else found

def query (log : InMemoryEventLog Id Payload) (query : EventLogQuery) :
    List (CognitiveEvent Id Payload) :=
  scanBack query [] log.reverse

/-- The events after an identifier, up to another one if there is one. -/
def getRange [LinearOrder Id] [OrderBot Id] (log : InMemoryEventLog Id Payload) (fromId : Id)
    (toId : Option Id) : List (CognitiveEvent Id Payload) :=
  match log.findIdx? fun event => decide (fromId < event.id) with
  | none => []
  | some startIdx =>
    -- the empty identifier is as good as none
    match toId.filter (· ≠ ⊥) with
    | none => log.drop startIdx
    | some toId =>
      let endIdx := (log.findIdx? fun event => decide (toId < event.id)).getD log.length
      (log.take endIdx).drop startIdx

def doAppend (limits : EventLogLimits) (log : InMemoryEventLog Id Payload)
    (fullEvent : CognitiveEvent Id Payload) (payloadJson : String) :
    Except EventLogError (InMemoryEventLog Id Payload) := do
  assertAppendable limits payloadJson log.length
  return log ++ [fullEvent]

end InMemoryEventLog

/-! ### The log in a database -/

/-- How a payload is written to text and read back from it. -/
structure Json (Payload : Type) where
  stringify : Payload → String
  parse : String → Payload

structure Row (Id : Type) where
  id : Id
  type : String
  payload : String
  timestamp : ℕ
  correlation_id : Option String
  causation_id : Option String
  deriving DecidableEq

structure SqliteEventLog (Id : Type) where
  rows : List (Row Id) := []
  count : ℕ := 0

/-- The event of a row. -/
def rowToEvent (json : Json Payload) (row : Row Id) : CognitiveEvent Id Payload where
  id := row.id
  type := row.type
  payload := json.parse row.payload
  timestamp := row.timestamp
  correlationId := row.correlation_id
  causationId := row.causation_id
  engine := none

/-- The row of an event. -/
def toRow (event : CognitiveEvent Id Payload) (payloadJson : String) : Row Id where
  id := event.id
  type := event.type
  payload := payloadJson
  timestamp := event.timestamp
  correlation_id := event.correlationId
  causation_id := event.causationId

/-- By identifier. -/
def byId (Id : Type) [LinearOrder Id] : Comparison (Row Id) where
  le first second := decide (first.id ≤ second.id)
  total first second := by
    rw [decide_eq_true_iff, decide_eq_true_iff]
    exact le_total _ _
  trans first second third := by
    rw [decide_eq_true_iff, decide_eq_true_iff, decide_eq_true_iff]
    exact le_trans

namespace SqliteEventLog

/-- The conditions of a query. Nothing compares with not a number. -/
def matchesClauses (query : EventLogQuery) (row : Row Id) : Bool :=
  (query.correlationId.filter (· ≠ "")).all (row.correlation_id = some ·) &&
    (query.types.filter (· ≠ [])).all (row.type ∈ ·) &&
    query.timeRange.all fun range =>
      lessEq range.1 (.finite row.timestamp) && lessEq (.finite row.timestamp) range.2

/-- The number of rows a limit clause asks for: the limit without its fraction and not below zero.
A number that is no integer of the database is an error. -/
def limitClause : JsNumber → Option ℕ
  | .nan => none
  | .infinite negative => if negative then some 0 else none
  | .finite limit => if ⌊limit⌋ < 2 ^ 63 then some ⌊limit⌋.toNat else none

def query [LinearOrder Id] (json : Json Payload) (log : SqliteEventLog Id)
    (query : EventLogQuery) : Option (List (CognitiveEvent Id Payload)) :=
  let ordered := (byId Id).toSorted (log.rows.filter (matchesClauses query))
  match query.limit with
  | none => some (ordered.map (rowToEvent json))
  | some limit => do
    let count ← limitClause limit
    return ((ordered.reverse.take count).map (rowToEvent json)).reverse

def getRange [LinearOrder Id] [OrderBot Id] (json : Json Payload) (log : SqliteEventLog Id)
    (fromId : Id) (toId : Option Id) : List (CognitiveEvent Id Payload) :=
  let rows := log.rows.filter fun row =>
    decide (fromId < row.id) && (toId.filter (· ≠ ⊥)).all (row.id ≤ ·)
  ((byId Id).toSorted rows).map (rowToEvent json)

def doAppend (limits : EventLogLimits) (log : SqliteEventLog Id)
    (fullEvent : CognitiveEvent Id Payload) (payloadJson : String) :
    Except EventLogError (SqliteEventLog Id) := do
  assertAppendable limits payloadJson log.count
  return { rows := log.rows ++ [toRow fullEvent payloadJson], count := log.count + 1 }

end SqliteEventLog

/-- Append an event to a log: the event that is returned and the log, or why it is refused. -/
def append {Log : Type} (variant : CognitiveEvent Id Payload → Bool) (json : Json Payload)
    (doAppend : CognitiveEvent Id Payload → String → Except EventLogError Log)
    (draft : Draft Payload) (id : Id) (now : ℕ) :
    Except EventLogError (CognitiveEvent Id Payload × Log) := do
  let full := draft.stamped id now
  if validateCognitiveEvent variant full then
    let log ← doAppend full (json.stringify full.payload)
    return (full, log)
  else throw .invalid

/-! ### Ranges -/

variable [LinearOrder Id] [OrderBot Id]

/-- Whether an identifier is after one and up to another one, where there is one. -/
def inRange (fromId : Id) (toId : Option Id) (id : Id) : Bool :=
  decide (fromId < id) && (toId.filter (· ≠ ⊥)).all (id ≤ ·)

theorem getRange_memory {log : InMemoryEventLog Id Payload}
    (sorted : log.Pairwise fun first second => first.id < second.id) (fromId : Id)
    (toId : Option Id) :
    log.getRange fromId toId = log.filter fun event => inRange fromId toId event.id := by
  have stays : ∀ bound : Id, ∀ part : InMemoryEventLog Id Payload, part.Sublist log →
      part.Pairwise fun first second =>
        decide (bound < first.id) = true → decide (bound < second.id) = true := by
    intro bound part isPart
    refine (sorted.sublist isPart).imp ?_
    intro first second order after
    exact decide_eq_true ((of_decide_eq_true after).trans order)
  unfold InMemoryEventLog.getRange inRange
  cases found : log.findIdx? fun event => decide (fromId < event.id) with
  | none =>
    refine (List.filter_eq_nil_iff.mpr fun event member => ?_).symm
    have notAfter := List.findIdx?_eq_none_iff.mp found event member
    simp [notAfter]
  | some startIdx =>
    obtain ⟨_, rfl⟩ := List.findIdx?_eq_some_iff_findIdx_eq.mp found
    cases upTo : toId.filter (· ≠ ⊥) with
    | none =>
      simp only [Option.all_none, Bool.and_true]
      exact drop_findIdx_eq_filter (stays fromId log (.refl _))
    | some bound =>
      simp only [Option.all_some]
      rw [← List.findIdx_eq_getD_findIdx?]
      have within := List.take_sublist (log.findIdx fun event => decide (bound < event.id)) log
      have dropped : (log.take (log.findIdx fun event => decide (bound < event.id))).drop
          (log.findIdx fun event => decide (fromId < event.id)) =
          (log.take (log.findIdx fun event => decide (bound < event.id))).filter fun event =>
            decide (fromId < event.id) := by
        rw [← drop_findIdx_eq_filter (stays fromId _ within), List.findIdx_take,
          List.drop_eq_drop_iff, List.length_take]
        omega
      rw [dropped, take_findIdx_eq_filter (stays bound log (.refl _)), List.filter_filter]
      refine List.filter_congr fun event _ => ?_
      rw [← decide_not, decide_eq_decide.mpr not_lt]

end Senars.EventLog
