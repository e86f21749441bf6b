/-
This file is the ledger: rows that are appended to the files of a directory, read back
file by file, and kept a while in a hot cache.

Whatever is appended, the rows that are read back are those that were written, sorted
by the names of the files they were written to.
-/

import Senars.Storage.Files
import Senars.Library.Capped
import Senars.Library.JsNumber
import Senars.Library.OrderedMap

namespace Senars.Storage

open Library Library.JsNumber

/-! ### Rows -/

/-- What the ledger reads of a row. -/
structure BaseLedgerEntry (Row : Type) where
  atTime : Row → JsNumber
  correlationId : Row → Option String
  sessionId : Row → Option String

/-- How a row is written to a line and read back through its schema. What was validated is read
back as it was written. -/
structure RowFormat (Row Line : Type) where
  stringify : Row → Line
  safeParse : Line → Option Row
  safeParse_stringify : ∀ row, safeParse (stringify row) = some row

structure LedgerQuery where
  correlationId : Option String := none
  sessionId : Option String := none
  since : Option JsNumber := none
  till : Option JsNumber := none
  limit : Option ℕ := none

structure LedgerConfig where
  maxEntriesPerFile : ℕ := 10000
  retentionDays : ℕ := 30
  hotRetentionMs : ℕ := 5 * 60 * 1000
  hotCacheMaxSize : ℕ := 10000

variable {Row Line : Type}

def matchesFilter (base : BaseLedgerEntry Row) (filter : LedgerQuery) (entry : Row) : Bool :=
  let asked := fun (wanted : Option String) => wanted.filter (· ≠ "")
  let bound := fun (wanted : Option JsNumber) => wanted.filter (·.truthy)
  (asked filter.correlationId).all (base.correlationId entry = some ·) &&
    (asked filter.sessionId).all (base.sessionId entry = some ·) &&
    (bound filter.since).all (!less (base.atTime entry) ·) &&
    (bound filter.till).all (!less · (base.atTime entry))

/-! ### The hot cache -/

/-- An entry of the hot cache, by the number of its append. -/
structure HotEntry (Row : Type) where
  seq : ℕ
  value : Row
  expiresAt : Option ℕ

def HotEntry.expired (entry : HotEntry Row) (now : ℕ) : Bool := entry.expiresAt.any (· ≤ now)

namespace LedgerConfig

/-- A window of retention that is not positive turns expiry off. -/
def expiresAt (config : LedgerConfig) (now : ℕ) : Option ℕ :=
  if 0 < config.hotRetentionMs then some (now + config.hotRetentionMs) else none

/-- Keep a row in the hot cache. Its number is new, and the oldest makes room. -/
def keepHot (config : LedgerConfig) (cache : List (HotEntry Row)) (seq : ℕ) (row : Row)
    (now : ℕ) : List (HotEntry Row) :=
  pushCapped cache ⟨seq, row, config.expiresAt now⟩ (max 1 config.hotCacheMaxSize)

end LedgerConfig

/-- Walk through the live rows of the hot cache until enough is accepted. Expired ones that are
met are evicted. -/
def collectHot (accept : Row → Bool) (now : ℕ) :
    Option ℕ → List (HotEntry Row) → List Row × List (HotEntry Row)
  | some 0, cache => ([], cache)
  | _, [] => ([], [])
  | limit, entry :: rest =>
    if entry.expired now then collectHot accept now limit rest
    else if accept entry.value then
      let (rows, kept) := collectHot accept now (limit.map (· - 1)) rest
      (entry.value :: rows, entry :: kept)
    else
      let (rows, kept) := collectHot accept now limit rest
      (rows, entry :: kept)

/-! ### The ledger -/

/-- A ledger. There is no directory until it is made. -/
structure Ledger (Row Line : Type) where
  directory : Option (OrderedMap LedgerFile (List Line)) := none
  hotCache : List (HotEntry Row) := []
  hotSeq : ℕ := 0
  currentFile : Option LedgerFile := none
  currentDay : Option CalendarDay := none
  rolloverIndex : ℕ := 0
  currentEntries : ℕ := 0

namespace Ledger

/-- The lines of a file. -/
def lines (ledger : Ledger Row Line) (file : LedgerFile) : List Line :=
  (ledger.directory.bind (·.get file)).getD []

/-- Put lines in a file, whatever was in it, in a directory that is made where it is missing. -/
def writeFile (ledger : Ledger Row Line) (file : LedgerFile) (lines : List Line) :
    Ledger Row Line :=
  { ledger with directory := some ((ledger.directory.getD .empty).set file lines) }

/-- Go over to the first file of a new day. -/
def rollDay (ledger : Ledger Row Line) (today : CalendarDay) : Ledger Row Line :=
  if ledger.currentDay = some today then ledger
  else { ledger with currentDay := some today, rolloverIndex := 0 }

/-- Make a file the current one. The directory is made with it. -/
def openFile (ledger : Ledger Row Line) (file : LedgerFile) : Ledger Row Line :=
  if ledger.currentFile = some file then ledger
  else
    { ledger with
      currentFile := some file
      currentEntries := 0
      directory := some (ledger.directory.getD .empty) }

/-- Append a line to the current file. -/
def appendRow (ledger : Ledger Row Line) (file : LedgerFile) (line : Line) : Ledger Row Line :=
  { ledger.writeFile file (ledger.lines file ++ [line]) with
    currentEntries := ledger.currentEntries + 1 }

/-- Write a line to the current file, or to the next one where it is full. The next one has no
entries when it is tried. -/
def writeToFile (config : LedgerConfig) (ledger : Ledger Row Line) (today : CalendarDay)
    (line : Line) : Ledger Row Line :=
  let ledger := ledger.rollDay today
  let file : LedgerFile := ⟨today, ledger.rolloverIndex⟩
  let ledger := ledger.openFile file
  if max 1 config.maxEntriesPerFile ≤ ledger.currentEntries then
    let ledger := { ledger with rolloverIndex := ledger.rolloverIndex + 1, currentFile := none }
    let next : LedgerFile := ⟨today, ledger.rolloverIndex⟩
    (ledger.openFile next).appendRow next line
  else ledger.appendRow file line

section

variable (format : RowFormat Row Line) (base : BaseLedgerEntry Row) (config : LedgerConfig)

/-- Append a row that was validated. -/
def append (ledger : Ledger Row Line) (row : Row) (today : CalendarDay) (now : ℕ) :
    Ledger Row Line :=
  let seq := ledger.hotSeq
  let ledger := { ledger with hotSeq := ledger.hotSeq + 1 }
  let ledger :=
    if 0 < config.hotRetentionMs then
      { ledger with hotCache := config.keepHot ledger.hotCache seq row now }
    else ledger
  ledger.writeToFile config today (format.stringify row)

/-- The files of a directory in the order they are read. -/
def listed (files : OrderedMap LedgerFile (List Line)) : List (LedgerFile × List Line) :=
  (LedgerFile.byName.comap Prod.fst).toSorted files.entries

/-- Read one file after the other until there is enough. -/
def scanFiles (accept : Line → Option Row) : Option ℕ → List (LedgerFile × List Line) → List Row
  | some 0, _ => []
  | _, [] => []
  | limit, file :: rest =>
    let rows := collectUpTo accept limit file.2
    rows ++ scanFiles accept (limit.map (· - rows.length)) rest

/-- What is accepted of a line. -/
def accepts (filter : LedgerQuery) (line : Line) : Option Row :=
  (format.safeParse line).filter (matchesFilter base filter)

/-- The rows of the files that match, or nothing where the directory cannot be read. -/
def scanDisk (ledger : Ledger Row Line) (filter : LedgerQuery) : Option (List Row) :=
  ledger.directory.map fun files =>
    scanFiles (accepts format base filter) filter.limit (listed files)

/-- The answer of the hot cache to a query that has a limit, where it has enough. -/
def hotAnswer (ledger : Ledger Row Line) (filter : LedgerQuery) (now : ℕ) : Option (List Row) :=
  filter.limit.bind fun limit =>
    let rows := (collectHot (matchesFilter base filter) now (some limit) ledger.hotCache).1
    if limit ≤ rows.length then some rows else none

/-- The rows that match, from the hot cache where it has enough, or else from the files. Where
there are no files the hot cache answers with what it has. -/
def query (ledger : Ledger Row Line) (filter : LedgerQuery) (now : ℕ) :
    Ledger Row Line × List Row :=
  let cached := collectHot (matchesFilter base filter) now filter.limit ledger.hotCache
  match ledger.hotAnswer base filter now with
  | some rows => ({ ledger with hotCache := cached.2 }, rows)
  | none =>
    match ledger.scanDisk format base filter with
    | some rows =>
      (if filter.limit.isSome then { ledger with hotCache := cached.2 } else ledger, rows)
    | none => ({ ledger with hotCache := cached.2 }, cached.1)

/-- Go over to a new file. -/
def rotate (ledger : Ledger Row Line) : Ledger Row Line :=
  { ledger with currentFile := none, currentEntries := 0, rolloverIndex := 0 }

/-- The last row of every key, where the key was first met. -/
def lastByKey (rows : List Row) (keySelector : Row → String) : OrderedMap String Row :=
  OrderedMap.empty.setAll (rows.map fun row => (keySelector row, row))

structure CompactReport where
  kept : ℕ
  dropped : ℕ
  deriving DecidableEq

/-- What compaction puts in the place of all rows. -/
def compacted (ledger : Ledger Row Line) (kept : List Row) (date : CalendarDay) (now : ℕ) :
    Ledger Row Line :=
  let file : LedgerFile := ⟨date, 0⟩
  let ledger := { ledger with directory := none }.writeFile file (kept.map format.stringify)
  let hot := kept.foldl (fun (cache, seq) row => (config.keepHot cache seq row now, seq + 1))
    ([], ledger.hotSeq)
  { ledger with
    hotCache := hot.1
    hotSeq := hot.2
    currentFile := some file
    currentDay := some date
    currentEntries := kept.length
    rolloverIndex := 0 }

/-- Keep the last row of every key and write them all to one file. -/
def compact (ledger : Ledger Row Line) (keySelector : Row → String) (date : CalendarDay)
    (now : ℕ) : Ledger Row Line × CompactReport :=
  let (ledger, all) := ledger.query format base {} now
  let byKey := lastByKey all keySelector
  (ledger.compacted format config (byKey.entries.map Prod.snd) date now,
    { kept := byKey.size, dropped := all.length - byKey.size })

/-- Delete the files of the days before a day, where files are not kept for ever. -/
def pruneOldFiles (ledger : Ledger Row Line) (cutoff : CalendarDay) : Ledger Row Line :=
  if config.retentionDays = 0 then ledger
  else
    { ledger with
      directory := ledger.directory.map fun files =>
        files.filterKeys fun file => cutoff ≤ file.day }

def invalidateHotCache (ledger : Ledger Row Line) : Ledger Row Line :=
  { ledger with hotCache := [] }

end

end Ledger

end Senars.Storage
