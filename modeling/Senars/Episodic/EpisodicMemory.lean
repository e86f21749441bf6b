/-
This file is episodic memory: episodes that are logged to a ledger, and looked up by the session or
the correlation they belong to, or by what caused them and what they led to.

A lookup by any of these is answered from indexes, which the first one builds from the ledger and
which every later episode is added to. Any other is answered by a scan of the ledger.
-/

import Senars.Cycle.Authorize
import Senars.Library.Buckets
import Senars.Storage.HotCache

namespace Senars.Episodic

open Library Library.JsNumber Storage

/-! ### Episodes -/

inductive EpisodeType where
  | input
  | response
  | beliefAdded
  | question
  | toolCall
  | error
  | dialogue
  | reaction
  deriving DecidableEq

/-- A value where a text is wanted. Any other is there as it is written in a key. -/
inductive MetadataValue where
  | absent
  | text (written : String)
  | other (written : String)
  deriving DecidableEq

/-- What is left of the metadata of an episode once its causal keys are lifted. -/
structure EpisodeMetadata where
  correlationId : MetadataValue := .absent
  sessionId : MetadataValue := .absent
  rest : String := ""
  deriving DecidableEq

structure Episode where
  timestamp : ℚ
  type : EpisodeType
  content : String
  metadata : EpisodeMetadata
  id : Option String
  causes : Option (List MetadataValue)
  consequences : Option (List MetadataValue)
  context : Option (List MetadataValue)
  deriving DecidableEq

/-- An episode as the ledger has it. -/
structure LedgerEpisode where
  atTime : ℚ
  correlationId : Option String
  sessionId : Option String
  type : EpisodeType
  content : String
  metadata : EpisodeMetadata
  id : Option String
  causes : Option (List String)
  consequences : Option (List String)
  context : Option (List String)
  deriving DecidableEq

/-- An optional text. -/
def MetadataValue.optionalString : MetadataValue → Option (Option String)
  | .absent => some none
  | .text written => some (some written)
  | .other _ => none

/-- A list of texts. -/
def strings : List MetadataValue → Option (List String)
  | [] => some []
  | .text text :: rest => (strings rest).map (text :: ·)
  | _ => none

/-- An optional list of texts. -/
def optionalStrings : Option (List MetadataValue) → Option (Option (List String))
  | none => some none
  | some values => (strings values).map some

/-- The entry of an episode, unless the schema of the ledger refuses it. -/
def toLedgerEntry (episode : Episode) : Option LedgerEpisode := do
  let correlationId ← episode.metadata.correlationId.optionalString
  let sessionId ← episode.metadata.sessionId.optionalString
  let causes ← optionalStrings episode.causes
  let consequences ← optionalStrings episode.consequences
  let context ← optionalStrings episode.context
  return {
    atTime := episode.timestamp
    correlationId
    sessionId
    type := episode.type
    content := episode.content
    metadata := episode.metadata
    id := episode.id
    causes
    consequences
    context }

def toEpisode (entry : LedgerEpisode) : Episode where
  timestamp := entry.atTime
  type := entry.type
  content := entry.content
  metadata := entry.metadata
  id := entry.id
  causes := entry.causes.map (·.map .text)
  consequences := entry.consequences.map (·.map .text)
  context := entry.context.map (·.map .text)

/-- What the ledger reads of an entry. -/
def episodeBase : BaseLedgerEntry LedgerEpisode where
  atTime entry := .finite entry.atTime
  correlationId entry := entry.correlationId
  sessionId entry := entry.sessionId

/-- The metadata an episode is logged with. The causal keys are those it may have as lists. -/
structure LogMetadata where
  id : MetadataValue := .absent
  causes : Option (List MetadataValue) := none
  consequences : Option (List MetadataValue) := none
  context : Option (List MetadataValue) := none
  metadata : EpisodeMetadata := {}
  deriving DecidableEq

/-- The episode of a call, with an id that is new where it is given none. -/
def LogMetadata.toEpisode (metadata : LogMetadata) (timestamp : ℚ) (type : EpisodeType)
    (content newId : String) : Episode where
  timestamp := timestamp
  type := type
  content := content
  metadata := metadata.metadata
  id :=
    match metadata.id with
    | .text id => some id
    | _ => some newId
  causes := metadata.causes
  consequences := metadata.consequences
  context := metadata.context

/-! ### Filters -/

structure EpisodeFilter where
  timeRange : Option (JsNumber × JsNumber) := none
  type : Option EpisodeType := none
  limit : Option ℕ := none
  sessionId : Option String := none
  correlationId : Option String := none
  causedBy : Option String := none
  leadingTo : Option String := none

/-- An id that is asked for. The empty one is not. -/
def asked (wanted : Option String) : Option String := wanted.filter (· ≠ "")

def matchesFilter (options : EpisodeFilter) (episode : Episode) : Bool :=
  (asked options.correlationId).all (episode.metadata.correlationId = .text ·) &&
    (asked options.sessionId).all (episode.metadata.sessionId = .text ·) &&
    options.type.all (episode.type = ·) &&
    options.timeRange.all (fun range =>
      !less (.finite episode.timestamp) range.1 && !less range.2 (.finite episode.timestamp)) &&
    (asked options.causedBy).all ((episode.causes.getD []).contains <| .text ·) &&
    (asked options.leadingTo).all ((episode.consequences.getD []).contains <| .text ·)

/-- What of a filter the ledger is asked. -/
def EpisodeFilter.toLedgerQuery (options : EpisodeFilter) : LedgerQuery where
  correlationId := asked options.correlationId
  sessionId := asked options.sessionId
  since := options.timeRange.map Prod.fst
  till := options.timeRange.map Prod.snd
  limit := options.limit.filter (· ≠ 0)

/-! ### Indexes -/

/-- An episode in memory. Two that were made apart are two, even where they say the same. -/
structure EpisodeObject where
  ref : ℕ
  episode : Episode
  deriving DecidableEq

structure CausalIndex where
  byCauses : Buckets MetadataValue EpisodeObject := .empty
  byConsequences : Buckets MetadataValue EpisodeObject := .empty

namespace CausalIndex

def add (index : CausalIndex) (object : EpisodeObject) : CausalIndex where
  byCauses := index.byCauses.pushEach (object.episode.causes.getD []) object
  byConsequences := index.byConsequences.pushEach (object.episode.consequences.getD []) object

def causedBy (index : CausalIndex) (id : String) : List EpisodeObject :=
  index.byCauses.bucket (.text id)

def leadingTo (index : CausalIndex) (id : String) : List EpisodeObject :=
  index.byConsequences.bucket (.text id)

end CausalIndex

/-- A value as it is written in a key. -/
def MetadataValue.written : MetadataValue → String
  | .absent => "undefined"
  | .text written => written
  | .other written => written

def correlationKey (written : String) : String := "cid:" ++ written

def sessionKey (written : String) : String := "sid:" ++ written

/-- The indexes. They are built together. -/
structure Indexes where
  index : Buckets String EpisodeObject := .empty
  causal : CausalIndex := {}

/-- Put an episode in the bucket of an id, which is made where it is missing. -/
def pushText (index : Buckets String EpisodeObject) (key : String → String)
    (value : MetadataValue) (object : EpisodeObject) : Buckets String EpisodeObject :=
  match value with
  | .text text => index.push (key text) object
  | _ => index

namespace Indexes

/-- Index an episode that was read from the ledger. -/
def read (indexes : Indexes) (object : EpisodeObject) : Indexes where
  index :=
    pushText (pushText indexes.index correlationKey object.episode.metadata.correlationId object)
      sessionKey object.episode.metadata.sessionId object
  causal := indexes.causal.add object

/-- Index an episode that is logged. The buckets of its ids are not made. -/
def log (indexes : Indexes) (object : EpisodeObject) : Indexes where
  index :=
    (indexes.index.pushKnown (correlationKey object.episode.metadata.correlationId.written)
      object).pushKnown (sessionKey object.episode.metadata.sessionId.written) object
  causal := indexes.causal.add object

def build (objects : List EpisodeObject) : Indexes := objects.foldl read {}

/-- The episodes that the causes and consequences of a filter select. -/
def causalSources (indexes : Indexes) (options : EpisodeFilter) : List (List EpisodeObject) :=
  ((asked options.causedBy).map indexes.causal.causedBy).toList ++
    ((asked options.leadingTo).map indexes.causal.leadingTo).toList

/-- The episodes that the ids of a filter select. -/
def metadataSources (indexes : Indexes) (options : EpisodeFilter) : List (List EpisodeObject) :=
  ((asked options.correlationId).map fun id => indexes.index.bucket (correlationKey id)).toList ++
    ((asked options.sessionId).map fun id => indexes.index.bucket (sessionKey id)).toList

end Indexes

/-- The last of a list. -/
def takeLast {Item : Type} (items : List Item) (count : ℕ) : List Item := trimCapped items count

/-- Of several sources each episode is a candidate once. -/
def candidates : List (List EpisodeObject) → List EpisodeObject
  | [only] => only
  | sources => uniqueBy id sources.flatten

/-- The candidates that match, or the last of them. -/
def resolve (sources : List (List EpisodeObject)) (options : EpisodeFilter) : List Episode :=
  let found := ((candidates sources).filter (matchesFilter options ·.episode)).map (·.episode)
  match options.limit with
  | none => found
  | some limit => takeLast found limit

/-! ### Episodic memory -/

/-- An episodic memory, with the episodes its indexes were ever given. -/
structure EpisodicMemory (Line : Type) where
  history : LedgerHistory LedgerEpisode Line := {}
  indexes : Option Indexes := none
  given : List EpisodeObject := []

section

variable {Line : Type} (format : RowFormat LedgerEpisode Line) (config : LedgerConfig)

namespace EpisodicMemory

/-- Log an episode. It is indexed before the ledger has accepted it. -/
def log (memory : EpisodicMemory Line) (episode : Episode) (today : CalendarDay) (now : ℕ) :
    Option (EpisodicMemory Line) :=
  let object : EpisodeObject := ⟨memory.given.length, episode⟩
  let memory :=
    match memory.indexes with
    | none => memory
    | some indexes =>
      { memory with indexes := some (indexes.log object), given := memory.given ++ [object] }
  match toLedgerEntry episode with
  | none => some memory
  | some entry =>
    (LedgerHistory.step format episodeBase config memory.history (.append entry today now)).map
      fun history => { memory with history }

/-- Ask the ledger. -/
def query (memory : EpisodicMemory Line) (filter : LedgerQuery) (now : ℕ) :
    EpisodicMemory Line × List LedgerEpisode :=
  ({ memory with history := memory.history.after format episodeBase config (.query filter now) },
    (memory.history.ledger.query format episodeBase filter now).2)

/-- The indexes, which are built where they are missing from all that the ledger has. -/
def buildIndexes (memory : EpisodicMemory Line) (now : ℕ) : EpisodicMemory Line × Indexes :=
  match memory.indexes with
  | some indexes => (memory, indexes)
  | none =>
    let (memory, entries) := memory.query format config {} now
    let given := entries.zipIdx.map fun entry => ⟨entry.2, toEpisode entry.1⟩
    ({ memory with indexes := some (Indexes.build given), given }, Indexes.build given)

/-- The episodes of the ledger that match, most recent first. -/
def scanEpisodes (memory : EpisodicMemory Line) (options : EpisodeFilter) (now : ℕ) :
    EpisodicMemory Line × List Episode :=
  let (memory, entries) := memory.query format config options.toLedgerQuery now
  (memory, Cycle.rankBy ((entries.map toEpisode).filter (matchesFilter options))
    (fun episode => .finite episode.timestamp) {})

/-- Some cause or consequence is asked for. -/
def AsksCausal (options : EpisodeFilter) : Bool :=
  (asked options.causedBy).isSome || (asked options.leadingTo).isSome

/-- Some id is asked for. -/
def AsksMetadata (options : EpisodeFilter) : Bool :=
  (asked options.sessionId).isSome || (asked options.correlationId).isSome

/-- The episodes that match, from the indexes where they can tell. -/
def getEpisodes (memory : EpisodicMemory Line) (options : EpisodeFilter) (now : ℕ) :
    EpisodicMemory Line × List Episode :=
  if AsksCausal options then
    let (memory, indexes) := memory.buildIndexes format config now
    (memory, resolve (indexes.causalSources options) options)
  else if AsksMetadata options then
    let (memory, indexes) := memory.buildIndexes format config now
    (memory, resolve (indexes.metadataSources options) options)
  else memory.scanEpisodes format config options now

end EpisodicMemory

inductive EpisodicEvent where
  | log (metadata : LogMetadata) (timestamp : ℚ) (type : EpisodeType) (content newId : String)
      (today : CalendarDay) (now : ℕ)
  | getEpisodes (options : EpisodeFilter) (now : ℕ)
  | pruneOldFiles (cutoff : CalendarDay)

/-- One call, or the sweep of old files that goes with the first episode of a day. A memory that is
not enabled logs nothing. -/
def memoryStep (enabled : Bool) : Machine (EpisodicMemory Line) EpisodicEvent
  | memory, .log metadata timestamp type content newId today now =>
    if enabled then
      memory.log format config (metadata.toEpisode timestamp type content newId) today now
    else some memory
  | memory, .getEpisodes options now => some (memory.getEpisodes format config options now).1
  | memory, .pruneOldFiles cutoff =>
    some
      { memory with
        history := memory.history.after format episodeBase config (.pruneOldFiles cutoff) }

end

end Senars.Episodic
