/-
This file is the table of track records against the ledger it is loaded from. The load lists the
files of the ledger and reads one after the other, and folds all their rows into the table at the
end; an outcome that is recorded meanwhile is counted at once and appended to the same files.

An outcome is counted twice that is recorded before its file is read. It is counted once where its
file was read before, or was not there when the files were listed.
-/

import Senars.Kernel.SourceReputation
import Senars.Storage.Interleaving
import Mathlib.Data.Finset.Card
import Mathlib.Data.List.Induction

namespace Senars.Kernel

open Library Storage Storage.Ledger
open Unify (LruCache)

/-! ### Outcomes and their rows -/

inductive Outcome where
  | confirmed | contradicted
  deriving DecidableEq

/-- A row of the ledger of outcomes. -/
structure ReputationDeltaEntry where
  atTime : JsNumber
  correlationId : Option String := none
  sessionId : Option String := none
  key : String
  confirmed : Option ℚ
  contradicted : Option ℚ
  deriving DecidableEq

/-- How much a row adds to an outcome. -/
def ReputationDeltaEntry.delta (row : ReputationDeltaEntry) : Outcome → ℚ
  | .confirmed => row.confirmed.getD 0
  | .contradicted => row.contradicted.getD 0

def reputationBase : BaseLedgerEntry ReputationDeltaEntry where
  atTime := ReputationDeltaEntry.atTime
  correlationId := ReputationDeltaEntry.correlationId
  sessionId := ReputationDeltaEntry.sessionId

/-- The row of one outcome. -/
def deltaOf (key : String) (outcome : Outcome) (atTime : JsNumber) : ReputationDeltaEntry :=
  match outcome with
  | .confirmed => { atTime, key, confirmed := some 1, contradicted := some 0 }
  | .contradicted => { atTime, key, confirmed := some 0, contradicted := some 1 }

/-! ### The table -/

def zeroReputation : ReputationEntry := ⟨0, 0⟩

namespace ReputationEntry

def get (entry : ReputationEntry) : Outcome → JsNumber
  | .confirmed => entry.confirmed
  | .contradicted => entry.contradicted

def add (entry : ReputationEntry) (outcome : Outcome) (amount : ℚ) : ReputationEntry :=
  match outcome with
  | .confirmed => { entry with confirmed := entry.confirmed + .finite amount }
  | .contradicted => { entry with contradicted := entry.contradicted + .finite amount }

/-- Add what a row adds. -/
def fold (entry : ReputationEntry) (row : ReputationDeltaEntry) : ReputationEntry :=
  (entry.add .confirmed (row.delta .confirmed)).add .contradicted (row.delta .contradicted)

end ReputationEntry

/-- Change the entry of a key, or one that starts at nothing. -/
def accumulate (store : LruCache ReputationEntry) (key : String)
    (apply : ReputationEntry → ReputationEntry) : LruCache ReputationEntry :=
  let (existing, store) := store.get key
  store.set key (apply (existing.getD zeroReputation))

namespace SourceReputation

/-- A table of no entries. -/
def create (capacity : ℕ) (floor decayGate : JsNumber) : SourceReputation :=
  ⟨LruCache.new capacity, floor, decayGate⟩

/-- Count one outcome of a source. -/
def count (reputation : SourceReputation) (key : String) (outcome : Outcome) : SourceReputation :=
  { reputation with entries := accumulate reputation.entries key (·.add outcome 1) }

/-- Fold the rows of the ledger into the table. -/
def foldRows (reputation : SourceReputation) (rows : List ReputationDeltaEntry) :
    SourceReputation :=
  { reputation with
    entries := rows.foldl (fun entries row => accumulate entries row.key (·.fold row))
      reputation.entries }

/-- What the table has counted of an outcome of a source. -/
def tally (entries : LruCache ReputationEntry) (key : String) (outcome : Outcome) : JsNumber :=
  ((entries.peek key).getD zeroReputation).get outcome

end SourceReputation

/-! ### Loading -/

/-- Where the load is. -/
inductive LoadPhase where
  | waiting
  /-- The directory could not be listed, and the hot cache is to answer. -/
  | unlisted
  /-- The files that are still to be read, and the rows that were. -/
  | reading (remaining : List LedgerFile) (rows : List ReputationDeltaEntry)
  | loaded
  deriving DecidableEq

/-- A table and its ledger, and the outcomes that were recorded. -/
structure LoadingReputation (Line : Type) where
  reputation : SourceReputation
  ledger : Ledger ReputationDeltaEntry Line
  phase : LoadPhase := .waiting
  recorded : List (String × Outcome) := []

inductive LoadingEvent where
  | record (key : String) (outcome : Outcome) (atTime : JsNumber) (today : CalendarDay) (now : ℕ)
  /-- The retention sweep deletes a file. -/
  | unlink (file : LedgerFile)
  | listFiles
  | readCache (now : ℕ)
  | readFile
  | fold

variable {Line : Type}

/-- The ledger without a file. -/
def unlinkFile (ledger : Ledger ReputationDeltaEntry Line) (file : LedgerFile) :
    Ledger ReputationDeltaEntry Line :=
  { ledger with directory := ledger.directory.map (·.delete file) }

/-- Begin to read the files there are. -/
def loadPhase (ledger : Ledger ReputationDeltaEntry Line) : LoadPhase :=
  match ledger.directory with
  | none => .unlisted
  | some files => .reading ((listed files).map Prod.fst) []

section

variable (format : RowFormat ReputationDeltaEntry Line) (config : LedgerConfig)

/-- One step of the load, or an outcome that is recorded before or after it. -/
def loadingStep : Machine (LoadingReputation Line) LoadingEvent
  | ⟨reputation, ledger, phase, recorded⟩, .record key outcome atTime today now =>
    some ⟨reputation.count key outcome,
      ledger.append format config (deltaOf key outcome atTime) today now, phase,
      recorded ++ [(key, outcome)]⟩
  | ⟨reputation, ledger, phase, recorded⟩, .unlink file =>
    if config.retentionDays = 0 then none
    else some ⟨reputation, unlinkFile ledger file, phase, recorded⟩
  | ⟨reputation, ledger, .waiting, recorded⟩, .listFiles =>
    some ⟨reputation, ledger, loadPhase ledger, recorded⟩
  | ⟨reputation, ledger, .unlisted, recorded⟩, .readCache now =>
    let cached := collectHot (matchesFilter reputationBase {}) now none ledger.hotCache
    some ⟨reputation, { ledger with hotCache := cached.2 }, .reading [] cached.1, recorded⟩
  | ⟨reputation, ledger, .reading (file :: remaining) rows, recorded⟩, .readFile =>
    some ⟨reputation, ledger,
      .reading remaining (rows ++ ledger.rowsOf format reputationBase file), recorded⟩
  | ⟨reputation, ledger, .reading [] rows, recorded⟩, .fold =>
    some ⟨reputation.foldRows rows, ledger, .loaded, recorded⟩
  | _, _ => none

/-- A table that is made over the files of a directory. -/
def startLoading (reputation : SourceReputation)
    (directory : Option (OrderedMap LedgerFile (List Line))) : LoadingReputation Line :=
  { reputation, ledger := { directory } }

/-- What some rows add to an outcome of a source. -/
def deltaSum (rows : List ReputationDeltaEntry) (key : String) (outcome : Outcome) : ℚ :=
  ((rows.filter (·.key = key)).map (·.delta outcome)).sum

/-- A step that counts nothing twice and misses nothing: an outcome is recorded while files are read
to a file that is not still to be read, and none before they are listed; where there was no
directory, nothing that was recorded lives in the hot cache when it is asked; and no file that has
rows is swept before it is read. -/
def CountsOnce : LoadingReputation Line → LoadingEvent → Prop
  | ⟨_, _, .waiting, _⟩, .record .. => False
  | ⟨_, ledger, .reading remaining _, _⟩, .record _ _ _ today _ =>
    ledger.fileOf config today ∉ remaining
  | ⟨_, ledger, .waiting, _⟩, .unlink file => ledger.rowsOf format reputationBase file = []
  | ⟨_, ledger, .reading remaining _, _⟩, .unlink file =>
    file ∈ remaining → ledger.rowsOf format reputationBase file = []
  | ⟨_, ledger, _, _⟩, .readCache now => liveRows ledger.hotCache now = []
  | _, _ => True

/-- The source of an outcome that is recorded is one of these. -/
def RecordsFrom (sources : Finset String) : LoadingEvent → Prop
  | .record key .. => key ∈ sources
  | _ => True

end

/-! ### Counting -/

namespace SourceReputation

variable {entries : LruCache ReputationEntry} {sources : Finset String}

/-- A table that holds only some sources, and has room for all of them. -/
structure RoomFor (sources : Finset String) (entries : LruCache ReputationEntry) : Prop where
  known : ∀ key, (entries.peek key).isSome → key ∈ sources
  few : sources.card ≤ entries.maxSize

variable {key : String}

theorem isSome_of_mem_keys (member : key ∈ entries.entries.entries.map Prod.fst) :
    (entries.peek key).isSome := by
  obtain ⟨⟨key, value⟩, isEntry, rfl⟩ := List.mem_map.mp member
  exact Option.isSome_iff_exists.mpr
    ⟨value, (OrderedMap.get_eq_some_iff _ _ _).mpr isEntry⟩

theorem RoomFor.has_room (room : RoomFor sources entries) (isSource : key ∈ sources)
    (absent : entries.peek key = none) : entries.entries.size < entries.maxSize := by
  have fresh : key ∉ entries.entries.entries.map Prod.fst := by
    intro member
    have held := isSome_of_mem_keys member
    rw [absent] at held
    cases held
  have distinct : (key :: entries.entries.entries.map Prod.fst).Nodup :=
    List.nodup_cons.mpr ⟨fresh, entries.entries.nodup⟩
  have inside : (key :: entries.entries.entries.map Prod.fst).toFinset ⊆ sources := by
    intro other member
    rcases List.mem_cons.mp (List.mem_toFinset.mp member) with rfl | later
    · exact isSource
    · exact room.known other (isSome_of_mem_keys later)
  have size := Finset.card_le_card inside
  rw [List.toFinset_card_of_nodup distinct, List.length_cons, List.length_map] at size
  exact lt_of_lt_of_le size room.few

theorem peek_get (key other : String) : (entries.get key).2.peek other = entries.peek other :=
  Option.ext fun _ => LruCache.holds_get

theorem maxSize_get (key : String) : (entries.get key).2.maxSize = entries.maxSize := by
  unfold LruCache.get
  split <;> rfl

theorem RoomFor.get (room : RoomFor sources entries) (key : String) :
    RoomFor sources (entries.get key).2 where
  known other held := room.known other (by rwa [peek_get] at held)
  few := by
    rw [maxSize_get]
    exact room.few

theorem maxSize_set (key : String) (value : ReputationEntry) :
    (entries.set key value).maxSize = entries.maxSize := by
  unfold LruCache.set
  split <;> rfl

theorem RoomFor.peek_set (room : RoomFor sources entries) (isSource : key ∈ sources)
    (value : ReputationEntry) (other : String) :
    (entries.set key value).peek other =
      if other = key then some value else entries.peek other := by
  cases held : entries.peek key with
  | none => exact LruCache.peek_set_of_room (room.has_room isSource held) key other value
  | some existing =>
    change entries.entries.get key = some existing at held
    unfold LruCache.set
    rw [held]
    exact LruCache.get_reinsert _ _ _ _

theorem RoomFor.peek_accumulate (room : RoomFor sources entries) (isSource : key ∈ sources)
    (apply : ReputationEntry → ReputationEntry) (other : String) :
    (accumulate entries key apply).peek other =
      if other = key then some (apply ((entries.peek key).getD zeroReputation))
      else entries.peek other := by
  unfold accumulate
  rw [(room.get key).peek_set isSource, peek_get, LruCache.get_fst]
  rfl

theorem RoomFor.accumulate (room : RoomFor sources entries) {key} (isSource : key ∈ sources)
    (apply : ReputationEntry → ReputationEntry) :
    RoomFor sources (accumulate entries key apply) where
  known other held := by
    rw [room.peek_accumulate isSource] at held
    split at held
    · next same => exact same ▸ isSource
    · exact room.known other held
  few := by
    unfold Kernel.accumulate
    rw [maxSize_set, maxSize_get]
    exact room.few

theorem RoomFor.foldl {rows : List ReputationDeltaEntry} (room : RoomFor sources entries)
    (known : ∀ row ∈ rows, row.key ∈ sources) :
    RoomFor sources
      (rows.foldl (fun entries row => Kernel.accumulate entries row.key (·.fold row)) entries) :=
  List.foldlRecOn rows _ room fun _ kept row member => kept.accumulate (known row member) _

theorem RoomFor.tally_accumulate (room : RoomFor sources entries) (isSource : key ∈ sources)
    (apply : ReputationEntry → ReputationEntry) (other : String) (outcome : Outcome) :
    tally (Kernel.accumulate entries key apply) other outcome =
      if other = key then (apply ((entries.peek key).getD zeroReputation)).get outcome
      else tally entries other outcome := by
  unfold tally
  rw [room.peek_accumulate isSource]
  split <;> rfl

theorem get_add (entry : ReputationEntry) (added outcome : Outcome) (amount : ℚ) :
    (entry.add added amount).get outcome =
      if added = outcome then entry.get outcome + .finite amount else entry.get outcome := by
  cases added <;> cases outcome <;> rfl

theorem get_fold (entry : ReputationEntry) (row : ReputationDeltaEntry) (outcome : Outcome) :
    (entry.fold row).get outcome = entry.get outcome + .finite (row.delta outcome) := by
  unfold ReputationEntry.fold
  cases outcome <;> rfl

/-- A table whose tallies are these. -/
def Tallies (entries : LruCache ReputationEntry) (counts : String → Outcome → ℚ) : Prop :=
  ∀ key outcome, tally entries key outcome = .finite (counts key outcome)

theorem tallies_new (capacity : ℕ) : Tallies (LruCache.new capacity) fun _ _ => 0 := by
  intro key outcome
  cases outcome <;> rfl

theorem Tallies.count {counts} (tallies : Tallies entries counts) (room : RoomFor sources entries)
    (isSource : key ∈ sources) (outcome : Outcome) :
    Tallies (Kernel.accumulate entries key (·.add outcome 1))
      fun other observed =>
        counts other observed + if (key, outcome) = (other, observed) then 1 else 0 := by
  intro other observed
  have before := tallies other observed
  beta_reduce
  rw [room.tally_accumulate isSource]
  by_cases same : other = key
  · subst same
    rw [if_pos rfl, get_add]
    by_cases alike : outcome = observed
    · subst alike
      rw [if_pos rfl, if_pos rfl]
      exact congrArg (· + JsNumber.finite 1) before
    · rw [if_neg alike, if_neg (by simpa using alike), add_zero]
      exact before
  · rw [if_neg same, if_neg fun both => same (congrArg Prod.fst both).symm, add_zero]
    exact before

theorem deltaSum_cons (row : ReputationDeltaEntry) (rows : List ReputationDeltaEntry) (key : String)
    (outcome : Outcome) :
    deltaSum (row :: rows) key outcome =
      (if row.key = key then row.delta outcome else 0) + deltaSum rows key outcome := by
  unfold deltaSum
  by_cases same : row.key = key
  · rw [List.filter_cons_of_pos (by simpa using same), if_pos same, List.map_cons, List.sum_cons]
  · rw [List.filter_cons_of_neg (by simpa using same), if_neg same, zero_add]

theorem Tallies.foldl {counts rows} (tallies : Tallies entries counts)
    (room : RoomFor sources entries) (known : ∀ row ∈ rows, row.key ∈ sources) :
    Tallies (rows.foldl (fun entries row => Kernel.accumulate entries row.key (·.fold row)) entries)
        (fun key outcome => counts key outcome + deltaSum rows key outcome) := by
  induction rows generalizing entries counts with
  | nil =>
    intro key outcome
    beta_reduce
    rw [deltaSum, List.filter_nil, List.map_nil, List.sum_nil, add_zero]
    exact tallies key outcome
  | cons row rest ih =>
    obtain ⟨isSource, others⟩ := List.forall_mem_cons.mp known
    have after : Tallies (Kernel.accumulate entries row.key (·.fold row)) fun key outcome =>
        counts key outcome + if row.key = key then row.delta outcome else 0 := by
      intro key outcome
      beta_reduce
      rw [room.tally_accumulate isSource]
      by_cases same : key = row.key
      · subst same
        rw [if_pos rfl, get_fold, if_pos rfl]
        exact congrArg (· + JsNumber.finite _) (tallies row.key outcome)
      · rw [if_neg same, if_neg (Ne.symm same), add_zero]
        exact tallies key outcome
    intro key outcome
    beta_reduce
    rw [deltaSum_cons, ← add_assoc]
    exact ih after (room.accumulate isSource _) others key outcome

end SourceReputation

/-! ### What is still to be counted -/

section

variable {format : RowFormat ReputationDeltaEntry Line} {config : LedgerConfig}
  {ledger : Ledger ReputationDeltaEntry Line}

/-- The rows of the files there are. -/
def rowsOnFile (format : RowFormat ReputationDeltaEntry Line)
    (ledger : Ledger ReputationDeltaEntry Line) : List ReputationDeltaEntry :=
  ledger.rowsOnDisk format reputationBase

theorem rowsOnFile_eq {files} (directory : ledger.directory = some files) :
    rowsOnFile format ledger =
      ledger.rowsOfAll format reputationBase ((listed files).map Prod.fst) := by
  unfold rowsOnFile Ledger.rowsOnDisk Ledger.scanDisk Ledger.rowsOfAll
  rw [directory, Option.map_some, Option.getD_some, scanFiles_eq, List.flatMap_map,
    List.filterMap_flatMap]
  refine List.flatMap_congr fun file isListed => ?_
  have isFile :=
    ((LedgerFile.byName.comap Prod.fst).toSorted_perm files.entries).mem_iff.mp isListed
  have found : files.get file.1 = some file.2 := (OrderedMap.get_eq_some_iff _ _ _).mpr isFile
  rw [rowsOf_eq, Ledger.lines, directory, Option.bind_some, found, Option.getD_some]

theorem rowsOf_unlinkFile (file other : LedgerFile) :
    (unlinkFile ledger file).rowsOf format reputationBase other =
      if other = file then [] else ledger.rowsOf format reputationBase other := by
  rw [rowsOf_eq, rowsOf_eq]
  unfold unlinkFile Ledger.lines
  cases ledger.directory with
  | none =>
    split <;> rfl
  | some files =>
    rw [Option.map_some, Option.bind_some, OrderedMap.get_delete]
    split <;> rfl

theorem rowsOfAll_unlinkFile {file files}
    (empty : file ∈ files → ledger.rowsOf format reputationBase file = []) :
    (unlinkFile ledger file).rowsOfAll format reputationBase files =
      ledger.rowsOfAll format reputationBase files := by
  refine List.flatMap_congr fun other isFile => ?_
  rw [rowsOf_unlinkFile]
  split
  · next same =>
    subst same
    exact (empty isFile).symm
  · rfl

theorem rowsOnFile_unlinkFile {file} (empty : ledger.rowsOf format reputationBase file = []) :
    rowsOnFile format (unlinkFile ledger file) = rowsOnFile format ledger := by
  cases directory : ledger.directory with
  | none =>
    unfold rowsOnFile Ledger.rowsOnDisk Ledger.scanDisk unlinkFile
    rw [directory]
    rfl
  | some files =>
    have left : (unlinkFile ledger file).directory = some (files.delete file) := by
      show ledger.directory.map (·.delete file) = _
      rw [directory, Option.map_some]
    have names : (listed (files.delete file)).map Prod.fst =
        ((listed files).map Prod.fst).filter (· ≠ file) := by
      unfold listed
      rw [List.filter_map, ← Comparison.toSorted_filter]
      rfl
    have absent : file ∉ ((listed files).map Prod.fst).filter (· ≠ file) := by
      intro member
      simpa using List.of_mem_filter member
    rw [rowsOnFile_eq left, rowsOnFile_eq directory, names,
      rowsOfAll_unlinkFile fun member => absurd member absent]
    generalize (listed files).map Prod.fst = names
    unfold Ledger.rowsOfAll
    induction names with
    | nil => rfl
    | cons first rest ih =>
      by_cases same : first = file
      · subst same
        rw [List.filter_cons_of_neg (by simp), List.flatMap_cons, empty]
        exact ih
      · rw [List.filter_cons_of_pos (by simpa using same), List.flatMap_cons, List.flatMap_cons,
          ih]

end

/-! ### The steps of a load -/

section

variable {format : RowFormat ReputationDeltaEntry Line} {config : LedgerConfig}
  {sources : Finset String} {persisted : List ReputationDeltaEntry}

/-- How often an outcome of a source was recorded. -/
def recordedCount (recorded : List (String × Outcome)) (key : String) (outcome : Outcome) : ℚ :=
  recorded.count (key, outcome)

/-- The rows that were persisted are those that are still to be counted, until all of them are. -/
def Pending (format : RowFormat ReputationDeltaEntry Line)
    (persisted : List ReputationDeltaEntry) : LoadingReputation Line → Prop
  | ⟨_, ledger, .waiting, _⟩ => rowsOnFile format ledger = persisted
  | ⟨_, _, .unlisted, _⟩ => persisted = []
  | ⟨_, ledger, .reading remaining rows, _⟩ =>
    rows ++ ledger.rowsOfAll format reputationBase remaining = persisted
  | ⟨_, _, .loaded, _⟩ => True

/-- What of the persisted rows the table has counted. -/
def countedRows (persisted : List ReputationDeltaEntry) : LoadPhase → List ReputationDeltaEntry
  | .loaded => persisted
  | _ => []

/-- Every outcome that was recorded is counted once, and every persisted one that is no longer
pending. -/
structure Counted (format : RowFormat ReputationDeltaEntry Line) (sources : Finset String)
    (persisted : List ReputationDeltaEntry) (state : LoadingReputation Line) : Prop where
  room : SourceReputation.RoomFor sources state.reputation.entries
  pending : Pending format persisted state
  tallies : SourceReputation.Tallies state.reputation.entries fun key outcome =>
    deltaSum (countedRows persisted state.phase) key outcome +
      recordedCount state.recorded key outcome

theorem recordedCount_concat (recorded : List (String × Outcome)) (key other : String)
    (outcome observed : Outcome) :
    recordedCount (recorded ++ [(key, outcome)]) other observed =
      recordedCount recorded other observed +
        if (key, outcome) = (other, observed) then 1 else 0 := by
  unfold recordedCount
  rw [List.count_append, List.count_singleton]
  simp only [beq_iff_eq]
  split <;> simp

theorem Counted.record {state key outcome ledger}
    (counted : Counted format sources persisted state) (isSource : key ∈ sources)
    (pending : Pending format persisted
      ⟨state.reputation.count key outcome, ledger, state.phase,
        state.recorded ++ [(key, outcome)]⟩) :
    Counted format sources persisted
      ⟨state.reputation.count key outcome, ledger, state.phase,
        state.recorded ++ [(key, outcome)]⟩ where
  room := counted.room.accumulate isSource (·.add outcome 1)
  pending
  tallies := by
    intro other observed
    beta_reduce
    rw [recordedCount_concat, ← add_assoc]
    exact counted.tallies.count counted.room isSource outcome other observed

theorem Counted.step {state next event} (known : ∀ row ∈ persisted, row.key ∈ sources)
    (counted : Counted format sources persisted state)
    (met : CountsOnce format config state event ∧ RecordsFrom sources event)
    (taken : loadingStep format config state event = some next) :
    Counted format sources persisted next := by
  obtain ⟨once, isSource⟩ := met
  unfold loadingStep at taken
  split at taken
  · next reputation ledger phase recorded key outcome atTime today now =>
    cases taken
    refine counted.record isSource ?_
    have pending := counted.pending
    cases phase with
    | waiting => exact absurd once id
    | unlisted => exact pending
    | loaded => trivial
    | reading remaining rows =>
      show rows ++ Ledger.rowsOfAll _ _ _ remaining = persisted
      rw [rowsOfAll_append_of_notMem _ now once]
      exact pending
  · next reputation ledger phase recorded file =>
    split at taken
    · cases taken
    · cases taken
      refine ⟨counted.room, ?_, counted.tallies⟩
      have pending := counted.pending
      cases phase with
      | waiting => exact (rowsOnFile_unlinkFile once).trans pending
      | unlisted => exact pending
      | loaded => trivial
      | reading remaining rows =>
        show rows ++ Ledger.rowsOfAll _ _ _ remaining = persisted
        rw [rowsOfAll_unlinkFile once]
        exact pending
  · next reputation ledger recorded =>
    cases taken
    have pending : rowsOnFile format ledger = persisted := counted.pending
    cases directory : ledger.directory with
    | none =>
      have phase : loadPhase ledger = .unlisted := by
        unfold loadPhase
        rw [directory]
      rw [phase]
      refine ⟨counted.room, ?_, counted.tallies⟩
      unfold rowsOnFile Ledger.rowsOnDisk Ledger.scanDisk at pending
      rw [directory] at pending
      exact pending.symm
    | some files =>
      have phase : loadPhase ledger = .reading ((listed files).map Prod.fst) [] := by
        unfold loadPhase
        rw [directory]
      rw [phase]
      exact ⟨counted.room, (rowsOnFile_eq directory).symm.trans pending, counted.tallies⟩
  · next reputation ledger recorded now =>
    cases taken
    refine ⟨counted.room, ?_, counted.tallies⟩
    show (collectHot (matchesFilter reputationBase {}) now none ledger.hotCache).1 ++ [] = persisted
    rw [collectHot_all, List.append_nil]
    exact Eq.trans once counted.pending.symm
  · next reputation ledger file remaining rows recorded =>
    cases taken
    refine ⟨counted.room, ?_, counted.tallies⟩
    show rows ++ Ledger.rowsOf _ _ _ _ ++ Ledger.rowsOfAll _ _ _ _ = persisted
    rw [List.append_assoc]
    exact counted.pending
  · next reputation ledger rows recorded =>
    cases taken
    have all : rows = persisted := (List.append_nil rows).symm.trans counted.pending
    subst all
    refine ⟨counted.room.foldl known, trivial, ?_⟩
    intro key outcome
    have folded := counted.tallies.foldl counted.room known key outcome
    beta_reduce at folded ⊢
    have nothing : deltaSum (countedRows rows (.reading [] rows)) key outcome = 0 := rfl
    rw [nothing, zero_add, add_comm] at folded
    exact folded
  · cases taken

end

/-! ### Any load -/

section

variable {format : RowFormat ReputationDeltaEntry Line} {config : LedgerConfig}

/-- Over any files, whatever is recorded in any order with the steps of the load: if the sources
have room in the table and no step counts twice or misses a row, then once all is loaded the table
has of every source each outcome that was persisted and each that was recorded, once. -/
theorem tally_of_run {capacity : ℕ} {floor decayGate : JsNumber}
    {directory : Option (OrderedMap LedgerFile (List Line))} {events : List LoadingEvent}
    {last : LoadingReputation Line} {sources : Finset String}
    (run : Run (loadingStep format config)
      (startLoading (.create capacity floor decayGate) directory) events last)
    (room : sources.card ≤ max 1 capacity)
    (known : ∀ row ∈ rowsOnFile format { directory }, row.key ∈ sources)
    (records : ∀ event ∈ events, RecordsFrom sources event)
    (meets : Run.Meets (loadingStep format config) (CountsOnce format config)
      (startLoading (.create capacity floor decayGate) directory) events)
    (loaded : last.phase = .loaded) (key : String) (outcome : Outcome) :
    SourceReputation.tally last.reputation.entries key outcome =
      .finite (deltaSum (rowsOnFile format { directory }) key outcome +
        recordedCount last.recorded key outcome) := by
  have starts : Counted format sources (rowsOnFile format { directory })
      (startLoading (.create capacity floor decayGate) directory) := by
    refine ⟨⟨fun key held => ?_, room⟩, rfl, fun key outcome => ?_⟩
    · cases held
    · have nothing : deltaSum [] key outcome + recordedCount [] key outcome = 0 := by
        rw [recordedCount, List.count_nil, Nat.cast_zero, add_zero]
        rfl
      exact (SourceReputation.tallies_new capacity key outcome).trans
        (congrArg JsNumber.finite nothing.symm)
  have steps : ∀ state event next,
      Counted format sources (rowsOnFile format { directory }) state →
        CountsOnce format config state event ∧ RecordsFrom sources event →
          loadingStep format config state event = some next →
            Counted format sources (rowsOnFile format { directory }) next :=
    fun _ _ _ counted met taken => counted.step known met taken
  have both := meets.and (run.meets_of_forall records)
  have tallies := (run.keeps_of_meets steps both starts).tallies
  rw [loaded] at tallies
  exact tallies key outcome

end

/-! ### An outcome that is recorded while a table is loaded -/

section

open LedgerHistory

/-- Rows that are written as they are. -/
def deltaFormat : RowFormat ReputationDeltaEntry ReputationDeltaEntry where
  stringify row := row
  safeParse line := some line
  safeParse_stringify _ := rfl

/-- A directory of one file with one row. -/
def onePersisted : Option (OrderedMap LedgerFile (List ReputationDeltaEntry)) :=
  some (.ofList [(⟨newYear, 0⟩, [deltaOf "peer" .confirmed 0])])

def startPeer (directory : Option (OrderedMap LedgerFile (List ReputationDeltaEntry))) :
    LoadingReputation ReputationDeltaEntry :=
  startLoading (.create 10000 (.finite (1 / 2)) 2) directory

/-- The table after some events. -/
def loading (directory : Option (OrderedMap LedgerFile (List ReputationDeltaEntry)))
    (events : List LoadingEvent) : LoadingReputation ReputationDeltaEntry :=
  (execute (loadingStep deltaFormat {}) (startPeer directory) events).getD (startPeer directory)

/-- One outcome comes once the file was read, and another one when all is loaded. -/
def recordedLate : List LoadingEvent :=
  [.listFiles, .readFile, .record "peer" .confirmed 1 newYear 1, .fold,
    .record "peer" .contradicted 2 newYear 2]

theorem tally_of_run_recordedLate :
    SourceReputation.tally (loading onePersisted recordedLate).reputation.entries "peer"
      .confirmed = .finite 2 := by
  have run : Run (loadingStep deltaFormat {}) (startPeer onePersisted) recordedLate
      (loading onePersisted recordedLate) := run_of_execute rfl
  have meets : Run.Meets (loadingStep deltaFormat {}) (CountsOnce deltaFormat {})
      (startPeer onePersisted) recordedLate :=
    .cons trivial rfl (.cons trivial rfl (.cons List.not_mem_nil rfl
      (.cons trivial rfl (.cons trivial rfl (.nil _)))))
  have persisted : rowsOnFile deltaFormat { directory := onePersisted } =
      [deltaOf "peer" .confirmed 0] := rfl
  have known : ∀ row ∈ rowsOnFile deltaFormat { directory := onePersisted },
      row.key ∈ ({"peer"} : Finset String) := by
    rw [persisted]
    decide
  have records : ∀ event ∈ recordedLate, RecordsFrom {"peer"} event := by
    simp [recordedLate, RecordsFrom]
  have counted := tally_of_run run (by decide) known records meets rfl "peer" .confirmed
  rw [persisted] at counted
  refine counted.trans (congrArg JsNumber.finite ?_)
  have once : recordedCount (loading onePersisted recordedLate).recorded "peer" .confirmed = 1 := by
    have recorded : (loading onePersisted recordedLate).recorded =
        [("peer", .confirmed), ("peer", .contradicted)] := rfl
    rw [recorded]
    rfl
  rw [once]
  decide +kernel

/-- An outcome comes before there is a directory to list, and is read from the file it went to. -/
def recordedEarly : List LoadingEvent :=
  [.record "peer" .confirmed 1 newYear 1, .listFiles, .readFile, .fold]

theorem outcome_counted_twice : ¬ ∀ (directory : Option (OrderedMap LedgerFile
      (List ReputationDeltaEntry))) (events : List LoadingEvent)
      (last : LoadingReputation ReputationDeltaEntry) (key : String) (outcome : Outcome),
    Run (loadingStep deltaFormat {}) (startPeer directory) events last → last.phase = .loaded →
      SourceReputation.tally last.reputation.entries key outcome =
        .finite (deltaSum (rowsOnFile deltaFormat { directory }) key outcome +
          recordedCount last.recorded key outcome) := by
  intro always
  have run : Run (loadingStep deltaFormat {}) (startPeer none) recordedEarly
      (loading none recordedEarly) := run_of_execute rfl
  have counted := always none recordedEarly _ "peer" .confirmed run rfl
  have twice : SourceReputation.tally (loading none recordedEarly).reputation.entries "peer"
      .confirmed = .finite 2 := by
    decide +kernel
  have once : deltaSum (rowsOnFile deltaFormat { directory := none }) "peer" .confirmed +
      recordedCount (loading none recordedEarly).recorded "peer" .confirmed = 1 := by
    have recorded : (loading none recordedEarly).recorded = [("peer", .confirmed)] := rfl
    rw [recorded]
    decide +kernel
  rw [twice, once] at counted
  exact absurd counted (by decide)

end

end Senars.Kernel
