/-
This file compares the two stores of the event log. They take and refuse the same events and
find the same ones, but a row has no column for the engine an event came from, which every
event has, nor for what closes a cycle. So an event that is read back from a row is never the
one that was appended, and the logs agree exactly where there is nothing to return.
-/

import Senars.EventLog.Logs

namespace Senars.EventLog

open Library Library.JsNumber

variable {Id Payload : Type}

/-! ### Appending to both -/

/-- Both logs, the identifier that was made last, and the events that were returned. -/
structure Logs (Id Payload : Type) where
  memory : InMemoryEventLog Id Payload := []
  sqlite : SqliteEventLog Id := {}
  lastId : Id
  returned : List (CognitiveEvent Id Payload) := []

/-- An event to be appended, with the identifier that is made for it and the time. -/
structure Appending (Id Payload : Type) where
  draft : Draft Payload
  id : Id
  now : ℕ

/-- The log after an append, which is as it was where that is refused. -/
def logAfter {Log : Type} (log : Log) :
    Except EventLogError (CognitiveEvent Id Payload × Log) → Log
  | .ok (_, left) => left
  | .error _ => log

def returnedBy {Log : Type} :
    Except EventLogError (CognitiveEvent Id Payload × Log) → List (CognitiveEvent Id Payload)
  | .ok (event, _) => [event]
  | .error _ => []

/-- Append an event to both logs. The identifiers that are made increase. -/
def appendStep [LinearOrder Id] (variant : CognitiveEvent Id Payload → Bool) (json : Json Payload)
    (limits : EventLogLimits) : Machine (Logs Id Payload) (Appending Id Payload) :=
  fun logs ⟨draft, id, now⟩ =>
    if logs.lastId < id then
      let memory := append variant json (logs.memory.doAppend limits) draft id now
      let sqlite := append variant json (logs.sqlite.doAppend limits) draft id now
      some
        { memory := logAfter logs.memory memory
          sqlite := logAfter logs.sqlite sqlite
          lastId := id
          returned := logs.returned ++ returnedBy memory }
    else none

/-- The event a log of a size takes, or why it takes none. -/
def admission (variant : CognitiveEvent Id Payload → Bool) (json : Json Payload)
    (limits : EventLogLimits) (size : ℕ) (draft : Draft Payload) (id : Id) (now : ℕ) :
    Except EventLogError (CognitiveEvent Id Payload) :=
  if validateCognitiveEvent variant (draft.stamped id now) then
    (assertAppendable limits (json.stringify (draft.stamped id now).payload) size).map fun _ =>
      draft.stamped id now
  else .error .invalid

section

variable {variant : CognitiveEvent Id Payload → Bool} {json : Json Payload}
  {limits : EventLogLimits} {draft : Draft Payload} {id : Id} {now : ℕ}

theorem append_memory (log : InMemoryEventLog Id Payload) :
    append variant json (log.doAppend limits) draft id now =
      (admission variant json limits log.length draft id now).map fun event =>
        (event, log ++ [event]) := by
  unfold append admission
  simp only
  split
  · unfold InMemoryEventLog.doAppend
    cases assertAppendable limits (json.stringify (draft.stamped id now).payload) log.length <;>
      rfl
  · rfl

theorem append_sqlite (log : SqliteEventLog Id) :
    append variant json (log.doAppend limits) draft id now =
      (admission variant json limits log.count draft id now).map fun event =>
        (event, ⟨log.rows ++ [toRow event (json.stringify event.payload)], log.count + 1⟩) := by
  unfold append admission
  simp only
  split
  · unfold SqliteEventLog.doAppend
    cases assertAppendable limits (json.stringify (draft.stamped id now).payload) log.count <;>
      rfl
  · rfl

theorem admission_ok {size event}
    (admitted : admission variant json limits size draft id now = .ok event) :
    event = draft.stamped id now ∧ event.base = true := by
  unfold admission at admitted
  split at admitted
  · next valid =>
    cases fits : assertAppendable limits (json.stringify (draft.stamped id now).payload) size with
    | error error =>
      rw [fits] at admitted
      cases admitted
    | ok _ =>
      rw [fits] at admitted
      cases admitted
      exact ⟨rfl, (Bool.and_eq_true_iff.mp valid).1⟩
  · cases admitted

end

/-- Both logs hold the events that were returned, by increasing identifier. -/
structure InStep [LinearOrder Id] [OrderBot Id] (json : Json Payload) (logs : Logs Id Payload) :
    Prop where
  rows : logs.sqlite.rows =
    logs.memory.map fun event => toRow event (json.stringify event.payload)
  count : logs.sqlite.count = logs.memory.length
  returned : logs.returned = logs.memory
  sorted : logs.memory.Pairwise fun first second => first.id < second.id
  within : ∀ event ∈ logs.memory, event.id ≤ logs.lastId
  based : ∀ event ∈ logs.memory, event.base = true

variable [LinearOrder Id] [OrderBot Id] {variant : CognitiveEvent Id Payload → Bool}
  {json : Json Payload} {limits : EventLogLimits} {logs : Logs Id Payload}

theorem inStep_step {next appending} (inStep : InStep json logs)
    (taken : appendStep variant json limits logs appending = some next) : InStep json next := by
  obtain ⟨draft, id, now⟩ := appending
  unfold appendStep at taken
  simp only [append_memory, append_sqlite, inStep.count] at taken
  split at taken
  · next increases =>
    cases admitted : admission variant json limits logs.memory.length draft id now with
    | error error =>
      rw [admitted] at taken
      cases taken
      refine ⟨inStep.rows, inStep.count, ?_, inStep.sorted, ?_, inStep.based⟩
      · exact (List.append_nil _).trans inStep.returned
      · exact fun event member => (inStep.within event member).trans increases.le
    | ok event =>
      rw [admitted] at taken
      cases taken
      obtain ⟨rfl, based⟩ := admission_ok admitted
      refine ⟨?_, ?_, ?_, ?_, ?_, ?_⟩
      · change logs.sqlite.rows ++ [_] = List.map _ (logs.memory ++ [_])
        rw [inStep.rows, List.map_append]
        rfl
      · change logs.memory.length + 1 = (logs.memory ++ [_]).length
        rw [List.length_append]
        rfl
      · change logs.returned ++ [_] = logs.memory ++ [_]
        rw [inStep.returned]
      · refine List.pairwise_append.mpr ⟨inStep.sorted, List.pairwise_singleton _ _, ?_⟩
        intro event member other isNew
        cases List.mem_singleton.mp isNew
        exact (inStep.within event member).trans_lt increases
      · intro event member
        rcases List.mem_append.mp member with old | new
        · exact (inStep.within event old).trans increases.le
        · cases List.mem_singleton.mp new
          exact le_rfl
      · intro event member
        rcases List.mem_append.mp member with old | new
        · exact inStep.based event old
        · cases List.mem_singleton.mp new
          exact based
  · cases taken

theorem inStep_empty (json : Json Payload) : InStep json ({ lastId := ⊥ } : Logs Id Payload) :=
  ⟨rfl, rfl, rfl, .nil, by rintro event ⟨⟩, by rintro event ⟨⟩⟩

/-! ### Queries -/

section

variable {Id Payload : Type} {query : EventLogQuery} {event : CognitiveEvent Id Payload}
  {log : InMemoryEventLog Id Payload}

theorem scanBack_append (query : EventLogQuery) (found : List (CognitiveEvent Id Payload))
    (events : List (CognitiveEvent Id Payload)) :
    ∃ more, InMemoryEventLog.scanBack query found events = more ++ found := by
  induction events generalizing found with
  | nil => exact ⟨[], rfl⟩
  | cons event older ih =>
    rw [InMemoryEventLog.scanBack]
    split
    · split
      · obtain ⟨more, same⟩ := ih (event :: found)
        exact ⟨more ++ [event], by rw [same, List.append_assoc, List.singleton_append]⟩
      · exact ih found
    · exact ⟨[], rfl⟩

/-- The limit of a query is not above zero. -/
def Zero (query : EventLogQuery) : Prop :=
  ∃ limit, query.limit = some limit ∧ less 0 limit = false

theorem query_memory_eq_nil_iff :
    log.query query = [] ↔ (∀ event ∈ log, passes query event = false) ∨ Zero query := by
  have goesOn : ¬ Zero query ↔ query.limit.all (fun limit => less (.finite 0) limit) = true := by
    unfold Zero
    cases query.limit <;> simp
  unfold InMemoryEventLog.query
  have backwards : (∀ event ∈ log, passes query event = false) ↔
      ∀ event ∈ log.reverse, passes query event = false := by
    simp only [List.mem_reverse]
  rw [backwards]
  induction log.reverse with
  | nil => simp [InMemoryEventLog.scanBack]
  | cons event older ih =>
    rw [InMemoryEventLog.scanBack, List.forall_mem_cons]
    by_cases zero : Zero query
    · have stops := mt goesOn.mpr (not_not.mpr zero)
      rw [if_neg (by simpa using stops)]
      exact iff_of_true rfl (.inr zero)
    · rw [if_pos (by simpa using goesOn.mp zero)]
      rw [or_iff_left zero] at ih ⊢
      cases passed : passes query event with
      | true =>
        obtain ⟨more, same⟩ := scanBack_append query [event] older
        simp [same]
      | false => simpa using ih

theorem passes_of_matchesClauses {payloadJson : String}
    (matched : SqliteEventLog.matchesClauses query (toRow event payloadJson) = true) :
    passes query event = true := by
  unfold SqliteEventLog.matchesClauses at matched
  unfold passes typeSetOf
  rw [Bool.and_eq_true_iff] at matched ⊢
  refine ⟨matched.1, ?_⟩
  cases range : query.timeRange with
  | none => rfl
  | some range =>
    have inside := matched.2
    rw [range, Option.all_some, Bool.and_eq_true_iff] at inside
    obtain ⟨_, _, notBefore⟩ := lessEq_iff.mp inside.1
    obtain ⟨_, _, notAfter⟩ := lessEq_iff.mp inside.2
    exact (congrArg₂ (fun first second => !(first || second)) notBefore notAfter).trans rfl

theorem engine_of_mem_query [LinearOrder Id] {json : Json Payload} {sqlite : SqliteEventLog Id}
    {answer} (answered : sqlite.query json query = some answer) (member : event ∈ answer) :
    event.engine = none := by
  unfold SqliteEventLog.query at answered
  cases limited : query.limit with
  | none =>
    rw [limited] at answered
    cases answered
    obtain ⟨row, _, rfl⟩ := List.mem_map.mp member
    rfl
  | some limit =>
    rw [limited] at answered
    obtain ⟨count, _, same⟩ := Option.bind_eq_some_iff.mp answered
    cases same
    obtain ⟨row, _, rfl⟩ := List.mem_map.mp (List.mem_reverse.mp member)
    rfl

theorem limitClause_of_zero {limit} {count : ℕ} (zero : less 0 limit = false)
    (valid : SqliteEventLog.limitClause limit = some count) : count = 0 := by
  unfold SqliteEventLog.limitClause at valid
  split at valid
  · cases valid
  · split at valid
    · cases valid
      rfl
    · cases valid
  · next value =>
    have low : value ≤ 0 := by simpa [less] using zero
    have floored : ⌊value⌋ ≤ 0 := by
      have cast := (Int.floor_le value).trans low
      exact_mod_cast cast
    split at valid
    · cases valid
      exact Int.toNat_of_nonpos floored
    · cases valid

/-- A limit the database takes. -/
def Valid (query : EventLogQuery) : Prop :=
  ∀ limit, query.limit = some limit → SqliteEventLog.limitClause limit ≠ none

theorem query_sqlite_eq_nil [LinearOrder Id] {json : Json Payload} {sqlite : SqliteEventLog Id}
    (valid : Valid query)
    (nothing : (∀ row ∈ sqlite.rows, SqliteEventLog.matchesClauses query row = false) ∨
      Zero query) :
    sqlite.query json query = some [] := by
  have noRows : (∀ row ∈ sqlite.rows, SqliteEventLog.matchesClauses query row = false) →
      sqlite.rows.filter (SqliteEventLog.matchesClauses query) = [] := fun none =>
    List.filter_eq_nil_iff.mpr fun row member => by simp [none row member]
  unfold SqliteEventLog.query
  cases limited : query.limit with
  | none =>
    have none := nothing.resolve_right (by rintro ⟨_, some, _⟩; simp [limited] at some)
    rw [noRows none]
    rfl
  | some limit =>
    obtain ⟨count, clause⟩ := Option.ne_none_iff_exists'.mp (valid limit limited)
    simp only [clause]
    rcases nothing with none | ⟨_, same, zero⟩
    · rw [noRows none]
      exact congrArg some (by simp [Comparison.toSorted])
    · cases limited.symm.trans same
      rw [limitClause_of_zero zero clause]
      rfl

end

/-! ### What the rows keep -/

/-- The event that is read back from the row of an event. -/
def storedForm (json : Json Payload) (event : CognitiveEvent Id Payload) :
    CognitiveEvent Id Payload :=
  rowToEvent json (toRow event (json.stringify event.payload))

/-- The limit of a query is a whole number of the database, and no end of its time range is not a
number. -/
structure Whole (query : EventLogQuery) : Prop where
  limit : ∀ limit, query.limit = some limit → ∃ count : ℤ, limit = .finite count ∧ count < 2 ^ 63
  timeRange : ∀ range, query.timeRange = some range → range.1 ≠ .nan ∧ range.2 ≠ .nan

section

variable {Id Payload : Type} {query : EventLogQuery} {event : CognitiveEvent Id Payload}

/-- The last matches, as many as the limit. -/
def lastMatches (query : EventLogQuery) (found : List (CognitiveEvent Id Payload)) :
    List (CognitiveEvent Id Payload) :=
  match query.limit with
  | some (.finite count) => (found.reverse.take ⌊count⌋.toNat).reverse
  | _ => found

theorem scanBack_limited {count : ℤ} (limited : query.limit = some (.finite count))
    (found events : List (CognitiveEvent Id Payload)) :
    InMemoryEventLog.scanBack query found events =
      ((events.filter (passes query)).take (count.toNat - found.length)).reverse ++ found := by
  induction events generalizing found with
  | nil => simp [InMemoryEventLog.scanBack]
  | cons event older ih =>
    rw [InMemoryEventLog.scanBack, limited, Option.all_some, less_finite]
    split
    · next room =>
      have below : (found.length : ℤ) < count := by exact_mod_cast of_decide_eq_true room
      cases passed : passes query event with
      | true =>
        have one : count.toNat - found.length = count.toNat - (found.length + 1) + 1 := by omega
        rw [if_pos rfl, ih, List.filter_cons_of_pos passed, one,
          List.take_succ_cons, List.reverse_cons, List.append_assoc, List.length_cons]
        rfl
      | false =>
        rw [if_neg Bool.false_ne_true, ih,
          List.filter_cons_of_neg (by simp [passed])]
    · next full =>
      have reached : count ≤ (found.length : ℤ) := by
        rw [decide_eq_true_iff, not_lt] at full
        exact_mod_cast full
      have none : count.toNat - found.length = 0 := by omega
      rw [none]
      rfl

theorem scanBack_unlimited (unlimited : query.limit = none)
    (found events : List (CognitiveEvent Id Payload)) :
    InMemoryEventLog.scanBack query found events =
      (events.filter (passes query)).reverse ++ found := by
  induction events generalizing found with
  | nil => rfl
  | cons event older ih =>
    rw [InMemoryEventLog.scanBack, unlimited, Option.all_none, ih]
    cases passed : passes query event with
    | true => simp [passed]
    | false => simp [passed]

theorem query_memory_eq (whole : Whole query) (log : InMemoryEventLog Id Payload) :
    log.query query = lastMatches query (log.filter (passes query)) := by
  unfold InMemoryEventLog.query lastMatches
  cases limited : query.limit with
  | none =>
    rw [scanBack_unlimited limited, List.filter_reverse, List.reverse_reverse, List.append_nil]
  | some limit =>
    obtain ⟨count, rfl, _⟩ := whole.limit limit limited
    rw [scanBack_limited limited]
    simp

theorem matchesClauses_toRow (whole : Whole query) (payloadJson : String) :
    SqliteEventLog.matchesClauses query (toRow event payloadJson) = passes query event := by
  unfold SqliteEventLog.matchesClauses passes typeSetOf
  congr 1
  cases isRange : query.timeRange with
  | none => rfl
  | some range =>
    obtain ⟨firstNumber, lastNumber⟩ := whole.timeRange range isRange
    rw [Option.all_some, Option.all_some, Bool.eq_iff_iff, Bool.and_eq_true_iff, lessEq_iff,
      lessEq_iff]
    simp [firstNumber, lastNumber, toRow]

end

theorem toSorted_rows (inStep : InStep json logs) (keep : Row Id → Bool) :
    (byId Id).toSorted (logs.sqlite.rows.filter keep) = logs.sqlite.rows.filter keep := by
  refine Comparison.Sorted.toSorted_eq (Comparison.Sorted.sublist ?_ List.filter_sublist)
  rw [inStep.rows]
  refine List.pairwise_map.mpr (inStep.sorted.imp ?_)
  intro first second order
  exact decide_eq_true order.le

theorem query_agrees (inStep : InStep json logs) {query} (whole : Whole query) :
    logs.sqlite.query json query = some ((logs.memory.query query).map (storedForm json)) := by
  have rows : logs.sqlite.rows.filter (SqliteEventLog.matchesClauses query) =
      (logs.memory.filter (passes query)).map fun event =>
        toRow event (json.stringify event.payload) := by
    rw [inStep.rows, List.filter_map]
    refine congrArg _ (List.filter_congr fun event _ => ?_)
    exact matchesClauses_toRow whole _
  unfold SqliteEventLog.query
  rw [query_memory_eq whole, toSorted_rows inStep, rows, lastMatches]
  cases limited : query.limit with
  | none => exact congrArg some (List.map_map ..)
  | some limit =>
    obtain ⟨count, rfl, inside⟩ := whole.limit limit limited
    have clause : SqliteEventLog.limitClause (.finite count) = some count.toNat := by
      rw [SqliteEventLog.limitClause, Int.floor_intCast, if_pos inside]
    simp only [clause, Int.floor_intCast]
    simp only [← List.map_reverse, ← List.map_take, List.map_map]
    rfl

theorem getRange_agrees (inStep : InStep json logs) (fromId : Id) (toId : Option Id) :
    logs.sqlite.getRange json fromId toId =
      (logs.memory.getRange fromId toId).map (storedForm json) := by
  unfold SqliteEventLog.getRange
  simp only
  rw [getRange_memory inStep.sorted, toSorted_rows inStep, inStep.rows, List.filter_map,
    List.map_map]
  rfl

/-! ### Where the logs are the same -/

/-- Both logs answer a query with the same events, each as it was returned when it was appended. -/
def SameAnswers (json : Json Payload) (logs : Logs Id Payload) (query : EventLogQuery) : Prop :=
  ∃ answer, logs.memory.query query = answer ∧ logs.sqlite.query json query = some answer ∧
    ∀ event ∈ answer, event ∈ logs.returned

/-- Both logs have the same events in a range, each as it was returned when it was appended. -/
def SameRange (json : Json Payload) (logs : Logs Id Payload) (fromId : Id) (toId : Option Id) :
    Prop :=
  logs.memory.getRange fromId toId = logs.sqlite.getRange json fromId toId ∧
    ∀ event ∈ logs.sqlite.getRange json fromId toId, event ∈ logs.returned

/-- There is nothing to find: the limit is one the database takes, and no event passes, or the limit
is not above zero. -/
def FindsNothing (logs : Logs Id Payload) (query : EventLogQuery) : Prop :=
  Valid query ∧ ((∀ event ∈ logs.returned, passes query event = false) ∨ Zero query)

theorem InStep.engine_ne_none (inStep : InStep json logs) {event : CognitiveEvent Id Payload}
    (member : event ∈ logs.returned) : event.engine ≠ none := by
  rw [inStep.returned] at member
  have based := inStep.based event member
  intro none
  simp [CognitiveEvent.base, none] at based

theorem sameAnswers_iff (inStep : InStep json logs) (query : EventLogQuery) :
    SameAnswers json logs query ↔ FindsNothing logs query := by
  constructor
  · rintro ⟨answer, inMemory, inDatabase, returned⟩
    obtain rfl : answer = [] := by
      refine List.eq_nil_iff_forall_not_mem.mpr fun event member => ?_
      exact inStep.engine_ne_none (returned event member) (engine_of_mem_query inDatabase member)
    refine ⟨?_, ?_⟩
    · intro limit limited invalid
      simp [SqliteEventLog.query, limited, invalid] at inDatabase
    · rw [inStep.returned]
      exact query_memory_eq_nil_iff.mp inMemory
  · rintro ⟨valid, nothing⟩
    rw [inStep.returned] at nothing
    refine ⟨[], query_memory_eq_nil_iff.mpr nothing, query_sqlite_eq_nil valid ?_, ?_⟩
    · refine nothing.imp_left fun none row member => ?_
      rw [inStep.rows] at member
      obtain ⟨event, isEvent, rfl⟩ := List.mem_map.mp member
      by_contra matched
      have passed := passes_of_matchesClauses (Bool.eq_true_of_not_eq_false matched)
      rw [none event isEvent] at passed
      cases passed
    · rintro event ⟨⟩

theorem sameRange_iff (inStep : InStep json logs) (fromId : Id) (toId : Option Id) :
    SameRange json logs fromId toId ↔
      ∀ event ∈ logs.returned, inRange fromId toId event.id = false := by
  have inMemory := getRange_memory inStep.sorted fromId toId
  have inDatabase := getRange_agrees inStep fromId toId
  constructor
  · rintro ⟨_, returned⟩ event member
    by_contra inside
    rw [Bool.not_eq_false] at inside
    have found : event ∈ logs.memory.getRange fromId toId := by
      rw [inMemory, ← inStep.returned]
      exact List.mem_filter.mpr ⟨member, inside⟩
    have stored : storedForm json event ∈ logs.sqlite.getRange json fromId toId :=
      inDatabase ▸ List.mem_map_of_mem found
    exact inStep.engine_ne_none (returned _ stored) rfl
  · intro none
    have noEvents : logs.memory.getRange fromId toId = [] := by
      rw [inMemory, ← inStep.returned]
      exact List.filter_eq_nil_iff.mpr fun event member => by simp [none event member]
    rw [SameRange, inDatabase, noEvents]
    exact ⟨rfl, by rintro event ⟨⟩⟩

/-- After any appends the two logs are the same for the queries and the ranges in which there is
nothing. -/
theorem sameLogs_iff {events : List (Appending Id Payload)}
    (run : Run (appendStep variant json limits) { lastId := ⊥ } events logs) :
    (∀ query, SameAnswers json logs query ↔ FindsNothing logs query) ∧
      ∀ fromId toId, SameRange json logs fromId toId ↔
        ∀ event ∈ logs.returned, inRange fromId toId event.id = false := by
  have inStep : InStep json logs :=
    run.keeps (fun _ _ _ kept taken => inStep_step kept taken) (inStep_empty json)
  exact ⟨sameAnswers_iff inStep, sameRange_iff inStep⟩

/-- After any appends the database answers as the memory does, each event as its row tells of it. -/
theorem sqlite_refines_memory {events : List (Appending Id Payload)}
    (run : Run (appendStep variant json limits) { lastId := ⊥ } events logs) :
    (∀ query, Whole query →
        logs.sqlite.query json query = some ((logs.memory.query query).map (storedForm json))) ∧
      ∀ fromId toId, logs.sqlite.getRange json fromId toId =
        (logs.memory.getRange fromId toId).map (storedForm json) := by
  have inStep : InStep json logs :=
    run.keeps (fun _ _ _ kept taken => inStep_step kept taken) (inStep_empty json)
  exact ⟨fun _ whole => query_agrees inStep whole, getRange_agrees inStep⟩

/-! ### One event -/

def plain : Json String := ⟨id, id⟩

/-- A belief that was taken back. -/
def retracted : Appending ℕ String where
  draft :=
    { type := "belief.retracted", payload := "bird", correlationId := some "run"
      engine := some .nar }
  id := 1
  now := 1000

/-- Both logs with that event. -/
def afterRetracted : Logs ℕ String where
  memory := [retracted.draft.stamped 1 1000]
  sqlite := { rows := [toRow (retracted.draft.stamped 1 1000) "bird"], count := 1 }
  lastId := 1
  returned := [retracted.draft.stamped 1 1000]

theorem run_retracted :
    Run (appendStep (fun _ => true) plain {}) { lastId := ⊥ } [retracted] afterRetracted :=
  .cons rfl (.nil _)

theorem sameLogs_iff_retracted :
    SameAnswers plain afterRetracted { types := some ["health"] } := by
  refine ((sameLogs_iff run_retracted).1 _).mpr ⟨?_, .inl (by decide)⟩
  rintro limit ⟨⟩

theorem sqlite_refines_memory_retracted :
    afterRetracted.sqlite.query plain {} =
      some ((afterRetracted.memory.query {}).map (storedForm plain)) :=
  (sqlite_refines_memory run_retracted).1 {} ⟨by rintro _ ⟨⟩, by rintro _ ⟨⟩⟩

theorem logs_differ_in_one_event :
    ¬ ∀ (events : List (Appending ℕ String)) (logs : Logs ℕ String),
      Run (appendStep (fun _ => true) plain {}) { lastId := ⊥ } events logs →
      (∀ query, SameAnswers plain logs query) ∧
        ∀ fromId toId, SameRange plain logs fromId toId := by
  intro always
  obtain ⟨answer, inMemory, inDatabase, _⟩ := (always _ _ run_retracted).1 {}
  have differ : afterRetracted.sqlite.query plain {} ≠ some (afterRetracted.memory.query {}) := by
    decide +kernel
  exact differ (inMemory ▸ inDatabase)

end Senars.EventLog
