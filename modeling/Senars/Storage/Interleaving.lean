/-
This file is about rows that are appended while a ledger is compacted. Compaction goes in
steps, and a row may be appended between any two of them: the files are listed and read one
after the other, the directory is removed and made anew, and what was kept is written to one
file of it.

A row is lost that goes to a file once it was read, and before the directory is removed, or to
the file that is written, before it is.
-/

import Senars.Storage.Compaction
import Senars.Storage.HotCache

namespace Senars.Storage

open Library Ledger

variable {Row Line : Type}

/-! ### The steps of compaction -/

/-- Where a compaction is. -/
inductive CompactPhase (Row : Type) where
  | idle
  /-- The directory could not be listed, and the hot cache is to answer. -/
  | unlisted
  /-- The files that are still to be read, and the rows that were. -/
  | reading (remaining : List LedgerFile) (rows : List Row)
  | removed (kept : List Row)
  | made (kept : List Row)
  | writing (kept : List Row) (date : CalendarDay)
  | written (kept : List Row) (date : CalendarDay)

/-- A ledger that may be compacted just now, and the rows that were ever appended to it. -/
structure CompactingLedger (Row Line : Type) where
  ledger : Ledger Row Line := {}
  phase : CompactPhase Row := .idle
  appended : List Row := []

inductive CompactingEvent (Row : Type) where
  | append (row : Row) (today : CalendarDay) (now : ℕ)
  | pruneOldFiles (cutoff : CalendarDay)
  | listFiles
  | readCache (now : ℕ)
  | readFile
  | removeDirectory
  | makeDirectory
  | readDate (date : CalendarDay)
  | writeRows
  | finish (now : ℕ)

section

variable (format : RowFormat Row Line) (base : BaseLedgerEntry Row) (config : LedgerConfig)

/-- The rows of a file. -/
def Ledger.rowsOf (ledger : Ledger Row Line) (file : LedgerFile) : List Row :=
  collectUpTo (accepts format base {}) none (ledger.lines file)

/-- Begin to read the files there are. -/
def Ledger.listPhase (ledger : Ledger Row Line) : CompactPhase Row :=
  match ledger.directory with
  | none => .unlisted
  | some files => .reading ((listed files).map Prod.fst) []

/-- What is in memory is what the file now holds. -/
def Ledger.resetTo (ledger : Ledger Row Line) (kept : List Row) (date : CalendarDay) (now : ℕ) :
    Ledger Row Line :=
  let hot := kept.foldl (fun (cache, seq) row => (config.keepHot cache seq row now, seq + 1))
    ([], ledger.hotSeq)
  { ledger with
    hotCache := hot.1
    hotSeq := hot.2
    currentFile := some ⟨date, 0⟩
    currentDay := some date
    currentEntries := kept.length
    rolloverIndex := 0 }

/-- One step of compaction, or a row that is appended before or after it. -/
def compactingStep (keySelector : Row → String) :
    Machine (CompactingLedger Row Line) (CompactingEvent Row)
  | ⟨ledger, phase, appended⟩, .append row today now =>
    some ⟨ledger.append format config row today now, phase, appended ++ [row]⟩
  | ⟨ledger, phase, appended⟩, .pruneOldFiles cutoff =>
    some ⟨ledger.pruneOldFiles config cutoff, phase, appended⟩
  | ⟨ledger, .idle, appended⟩, .listFiles => some ⟨ledger, ledger.listPhase, appended⟩
  | ⟨ledger, .unlisted, appended⟩, .readCache now =>
    let cached := collectHot (matchesFilter base {}) now none ledger.hotCache
    some ⟨{ ledger with hotCache := cached.2 }, .reading [] cached.1, appended⟩
  | ⟨ledger, .reading (file :: remaining) rows, appended⟩, .readFile =>
    some ⟨ledger, .reading remaining (rows ++ ledger.rowsOf format base file), appended⟩
  | ⟨ledger, .reading [] rows, appended⟩, .removeDirectory =>
    some ⟨{ ledger with directory := none },
      .removed ((lastByKey rows keySelector).entries.map Prod.snd), appended⟩
  | ⟨ledger, .removed kept, appended⟩, .makeDirectory =>
    some ⟨{ ledger with directory := some (ledger.directory.getD .empty) }, .made kept, appended⟩
  | ⟨ledger, .made kept, appended⟩, .readDate date =>
    some ⟨ledger, .writing kept date, appended⟩
  | ⟨ledger, .writing kept date, appended⟩, .writeRows =>
    some ⟨ledger.writeFile ⟨date, 0⟩ (kept.map format.stringify), .written kept date, appended⟩
  | ⟨ledger, .written kept date, appended⟩, .finish now =>
    some ⟨ledger.resetTo config kept date now, .idle, appended⟩
  | _, _ => none

end

/-! ### The last row of every key -/

section

variable {keySelector : Row → String} {key : String} {rows more : List Row} {row other : Row}

/-- The last row of a key. -/
def lastOf (keySelector : Row → String) (key : String) (rows : List Row) : Option Row :=
  (rows.filter (keySelector · = key)).getLast?

theorem lastOf_append_of_absent (absent : ∀ other ∈ more, keySelector other ≠ key) :
    lastOf keySelector key (rows ++ more) = lastOf keySelector key rows := by
  have nothing : more.filter (keySelector · = key) = [] :=
    List.filter_eq_nil_iff.mpr fun other member => by simpa using absent other member
  rw [lastOf, List.filter_append, nothing, List.append_nil]
  rfl

theorem lastOf_concat (rows : List Row) (row : Row) (key : String) :
    lastOf keySelector key (rows ++ [row]) =
      if keySelector row = key then some row else lastOf keySelector key rows := by
  split
  · next same =>
    have alone : [row].filter (keySelector · = key) = [row] := by simp [same]
    rw [lastOf, List.filter_append, alone, List.getLast?_concat]
  · next different =>
    refine lastOf_append_of_absent fun other member => ?_
    rw [List.mem_singleton.mp member]
    exact different

theorem lastOf_insert_of_ne (different : keySelector row ≠ key) (before after : List Row) :
    lastOf keySelector key (before ++ row :: after) =
      lastOf keySelector key (before ++ after) := by
  rw [lastOf, lastOf, List.filter_append, List.filter_append,
    List.filter_cons_of_neg (by simpa using different)]

theorem mem_lastByKey (isLast : lastOf keySelector key rows = some row) :
    row ∈ (lastByKey rows keySelector).entries.map Prod.snd := by
  have found : (lastByKey rows keySelector).get key = some row :=
    (get_lastByKey rows keySelector key).trans isLast
  exact List.mem_map.mpr ⟨(key, row), (OrderedMap.get_eq_some_iff _ _ _).mp found, rfl⟩

end

/-! ### What appending does to the files -/

section

variable {format : RowFormat Row Line} {base : BaseLedgerEntry Row} {config : LedgerConfig}
  {ledger : Ledger Row Line} {row other : Row}

/-- The file a row is appended to: the current one of the day, or the next one where it is full. -/
def Ledger.fileOf (config : LedgerConfig) (ledger : Ledger Row Line) (today : CalendarDay) :
    LedgerFile :=
  let ledger := ledger.rollDay today
  let file : LedgerFile := ⟨today, ledger.rolloverIndex⟩
  if ledger.currentFile = some file ∧ max 1 config.maxEntriesPerFile ≤ ledger.currentEntries then
    ⟨today, ledger.rolloverIndex + 1⟩
  else file

theorem writeToFile_fileOf (config : LedgerConfig) (ledger : Ledger Row Line) (today : CalendarDay)
    (line : Line) :
    (⟨today, (ledger.writeToFile config today line).rolloverIndex⟩ : LedgerFile) =
      ledger.fileOf config today := by
  unfold Ledger.writeToFile Ledger.fileOf
  dsimp only
  generalize ledger.rollDay today = rolled
  by_cases current : rolled.currentFile = some ⟨today, rolled.rolloverIndex⟩
  · have opened : rolled.openFile ⟨today, rolled.rolloverIndex⟩ = rolled := if_pos current
    rw [opened]
    by_cases full : max 1 config.maxEntriesPerFile ≤ rolled.currentEntries
    · rw [if_pos full, if_pos ⟨current, full⟩]
      exact congrArg (LedgerFile.mk today) (Ledger.openFile_spec _ _).2.2.1
    · rw [if_neg full, if_neg fun both => full both.2]
      rfl
  · have opened : (rolled.openFile ⟨today, rolled.rolloverIndex⟩).currentEntries = 0 := by
      rw [Ledger.openFile, if_neg current]
    rw [if_neg (by omega), if_neg fun both => current both.1]
    exact congrArg (LedgerFile.mk today) (Ledger.openFile_spec _ _).2.2.1

theorem lines_append (row : Row) (today : CalendarDay) (now : ℕ) (file : LedgerFile) :
    (ledger.append format config row today now).lines file =
      if file = ledger.fileOf config today then ledger.lines file ++ [format.stringify row]
      else ledger.lines file := by
  obtain ⟨hotCache, hotSeq, appends⟩ := ledger.append_eq format config row today now
  have goes := writeToFile_fileOf config { ledger with hotCache, hotSeq } today
  have rolled : ({ ledger with hotCache, hotSeq } : Ledger Row Line).fileOf config today =
      ledger.fileOf config today := by
    unfold Ledger.fileOf Ledger.rollDay
    by_cases same : ledger.currentDay = some today
    · rw [if_pos same, if_pos same]
    · rw [if_neg same, if_neg same]
  rw [appends, ← rolled, ← goes]
  exact (Ledger.writeToFile_spec config { ledger with hotCache, hotSeq } today
    (format.stringify row)).lines file

theorem rowsOf_eq (ledger : Ledger Row Line) (file : LedgerFile) :
    ledger.rowsOf format base file = (ledger.lines file).filterMap (accepts format base {}) := by
  unfold Ledger.rowsOf
  rw [collectUpTo_eq]
  rfl

theorem rowsOf_append (row : Row) (today : CalendarDay) (now : ℕ) (file : LedgerFile) :
    (ledger.append format config row today now).rowsOf format base file =
      if file = ledger.fileOf config today then ledger.rowsOf format base file ++ [row]
      else ledger.rowsOf format base file := by
  rw [rowsOf_eq, rowsOf_eq, lines_append]
  split
  · have accepted : accepts format base {} (format.stringify row) = some row := by
      unfold accepts
      rw [format.safeParse_stringify, Option.filter_some,
        if_pos (LedgerHistory.matchesFilter_all row)]
    rw [List.filterMap_append, List.filterMap_cons_some accepted, List.filterMap_nil]
  · rfl

/-- The row is in one of the files. -/
def Ledger.Contains (format : RowFormat Row Line) (ledger : Ledger Row Line) (row : Row) : Prop :=
  ∃ file, format.stringify row ∈ ledger.lines file

theorem contains_append (row : Row) (today : CalendarDay) (now : ℕ) :
    (ledger.append format config row today now).Contains format row := by
  refine ⟨ledger.fileOf config today, ?_⟩
  rw [lines_append, if_pos rfl]
  exact List.mem_append_right _ (List.mem_singleton_self _)

theorem Ledger.Contains.append (contained : ledger.Contains format other) (row : Row)
    (today : CalendarDay) (now : ℕ) :
    (ledger.append format config row today now).Contains format other := by
  obtain ⟨file, member⟩ := contained
  refine ⟨file, ?_⟩
  rw [lines_append]
  split
  · exact List.mem_append_left _ member
  · exact member

theorem Ledger.Contains.of_lines {next : Ledger Row Line}
    (contained : ledger.Contains format row) (same : ∀ file, next.lines file = ledger.lines file) :
    next.Contains format row := by
  obtain ⟨file, member⟩ := contained
  exact ⟨file, same file ▸ member⟩

end

/-! ### Steps that lose nothing -/

section

variable (format : RowFormat Row Line) (base : BaseLedgerEntry Row) (config : LedgerConfig)
  (keySelector : Row → String)

/-- The rows that are read, once some files are. -/
def Ledger.rowsOfAll (ledger : Ledger Row Line) (files : List LedgerFile) : List Row :=
  files.flatMap (ledger.rowsOf format base)

/-- Of every key the row that was appended last comes last. -/
def EndWithLast (appended rows : List Row) : Prop :=
  ∀ key row, lastOf keySelector key appended = some row → lastOf keySelector key rows = some row

/-- A step that loses no row: one that is appended while files are read goes to a file that is still
to be read, and none of its key is in a file that is read after it; none is appended between
reading the last file and removing them; no file is swept; where compaction begins, the files, or
the cache where there are none, have the row of each key last that was appended last; and where
the rows are written, nothing is in the file. -/
def LosesNothing : CompactingLedger Row Line → CompactingEvent Row → Prop
  | ⟨ledger, .reading remaining _, _⟩, .append row today _ =>
    ∃ before after,
      remaining = before ++ ledger.fileOf config today :: after ∧
        ∀ other ∈ ledger.rowsOfAll format base after, keySelector other ≠ keySelector row
  | ⟨ledger, _, _⟩, .pruneOldFiles cutoff =>
    config.retentionDays = 0 ∨ ∀ file, ledger.lines file ≠ [] → cutoff ≤ file.day
  | ⟨ledger, _, appended⟩, .listFiles =>
    ∀ files, ledger.directory = some files →
      EndWithLast keySelector appended
        (ledger.rowsOfAll format base ((listed files).map Prod.fst))
  | ⟨ledger, _, appended⟩, .readCache now =>
    EndWithLast keySelector appended (liveRows ledger.hotCache now)
  | ⟨ledger, .writing _ date, _⟩, .writeRows => ledger.lines ⟨date, 0⟩ = []
  | _, _ => True

/-- The row that was appended last of every key is in a file. -/
def InFiles (ledger : Ledger Row Line) (appended : List Row) : Prop :=
  ∀ {key row}, lastOf keySelector key appended = some row → ledger.Contains format row

/-- The row that was appended last of every key is among what was kept, or in a file. -/
def KeptOrInFiles (ledger : Ledger Row Line) (kept appended : List Row) : Prop :=
  ∀ {key row}, lastOf keySelector key appended = some row →
    row ∈ kept ∨ ledger.Contains format row

/-- What is still there of the row that was appended last of every key. While files are read it
comes last of its key in what will have been read. -/
def HasLastRows : CompactingLedger Row Line → Prop
  | ⟨ledger, .reading remaining rows, appended⟩ =>
    remaining.Nodup ∧
      EndWithLast keySelector appended (rows ++ ledger.rowsOfAll format base remaining)
  | ⟨ledger, .removed kept, appended⟩ => KeptOrInFiles format keySelector ledger kept appended
  | ⟨ledger, .made kept, appended⟩ => KeptOrInFiles format keySelector ledger kept appended
  | ⟨ledger, .writing kept _, appended⟩ => KeptOrInFiles format keySelector ledger kept appended
  | ⟨ledger, _, appended⟩ => InFiles format keySelector ledger appended

end

section

variable {format : RowFormat Row Line} {base : BaseLedgerEntry Row} {config : LedgerConfig}
  {keySelector : Row → String} {ledger next : Ledger Row Line} {kept appended : List Row}

theorem EndWithLast.concat {before after row}
    (ends : EndWithLast keySelector appended (before ++ after))
    (latest : ∀ other ∈ after, keySelector other ≠ keySelector row) :
    EndWithLast keySelector (appended ++ [row]) (before ++ row :: after) := by
  intro key last isLast
  rw [lastOf_concat] at isLast
  split at isLast
  · next same =>
    have regrouped : before ++ row :: after = before ++ [row] ++ after := by simp
    rw [regrouped, lastOf_append_of_absent (same ▸ latest), lastOf_concat, if_pos same]
    exact isLast
  · next different =>
    rw [lastOf_insert_of_ne different]
    exact ends key last isLast

theorem InFiles.append (inFiles : InFiles format keySelector ledger appended) (row : Row)
    (today : CalendarDay) (now : ℕ) :
    InFiles format keySelector (ledger.append format config row today now) (appended ++ [row]) := by
  intro key last isLast
  rw [lastOf_concat] at isLast
  split at isLast
  · cases isLast
    exact contains_append row today now
  · exact (inFiles isLast).append row today now

theorem KeptOrInFiles.append (has : KeptOrInFiles format keySelector ledger kept appended)
    (row : Row) (today : CalendarDay) (now : ℕ) :
    KeptOrInFiles format keySelector (ledger.append format config row today now) kept
      (appended ++ [row]) := by
  intro key last isLast
  rw [lastOf_concat] at isLast
  split at isLast
  · cases isLast
    exact .inr (contains_append row today now)
  · exact (has isLast).imp_right fun contained => contained.append row today now

theorem InFiles.of_lines (inFiles : InFiles format keySelector ledger appended)
    (same : ∀ file, next.lines file = ledger.lines file) :
    InFiles format keySelector next appended :=
  fun isLast => (inFiles isLast).of_lines same

theorem KeptOrInFiles.of_lines (has : KeptOrInFiles format keySelector ledger kept appended)
    (same : ∀ file, next.lines file = ledger.lines file) :
    KeptOrInFiles format keySelector next kept appended :=
  fun isLast => (has isLast).imp_right fun contained => contained.of_lines same

theorem rowsOfAll_of_lines (same : ∀ file, next.lines file = ledger.lines file)
    (files : List LedgerFile) :
    next.rowsOfAll format base files = ledger.rowsOfAll format base files := by
  refine List.flatMap_congr fun file _ => ?_
  rw [rowsOf_eq, rowsOf_eq, same]

theorem lines_of_unswept {cutoff}
    (unswept : config.retentionDays = 0 ∨ ∀ file, ledger.lines file ≠ [] → cutoff ≤ file.day)
    (file : LedgerFile) : (ledger.pruneOldFiles config cutoff).lines file = ledger.lines file := by
  by_cases retains : config.retentionDays = 0
  · unfold Ledger.pruneOldFiles
    rw [if_pos retains]
  · rw [LedgerHistory.lines_pruneOldFiles retains]
    split
    · rfl
    · next old =>
      by_contra differs
      exact old (unswept.resolve_left retains file (Ne.symm differs))

theorem HasLastRows.of_lines {phase}
    (has : HasLastRows format base keySelector ⟨ledger, phase, appended⟩)
    (same : ∀ file, next.lines file = ledger.lines file) :
    HasLastRows format base keySelector ⟨next, phase, appended⟩ := by
  cases phase with
  | reading remaining rows =>
    refine ⟨has.1, ?_⟩
    rw [rowsOfAll_of_lines same]
    exact has.2
  | removed kept => exact KeptOrInFiles.of_lines has same
  | made kept => exact KeptOrInFiles.of_lines has same
  | writing kept date => exact KeptOrInFiles.of_lines has same
  | idle => exact InFiles.of_lines has same
  | unlisted => exact InFiles.of_lines has same
  | written kept date => exact InFiles.of_lines has same

theorem rowsOfAll_append_of_notMem (row : Row) {today : CalendarDay} (now : ℕ) {files}
    (absent : ledger.fileOf config today ∉ files) :
    (ledger.append format config row today now).rowsOfAll format base files =
      ledger.rowsOfAll format base files := by
  refine List.flatMap_congr fun file isFile => ?_
  rw [rowsOf_append, if_neg]
  rintro rfl
  exact absent isFile

theorem rowsOfAll_append (row : Row) {today} (now : ℕ) {before after}
    (distinct : (before ++ ledger.fileOf config today :: after).Nodup) :
    (ledger.append format config row today now).rowsOfAll format base
        (before ++ ledger.fileOf config today :: after) =
      ledger.rowsOfAll format base (before ++ [ledger.fileOf config today]) ++
        row :: ledger.rowsOfAll format base after := by
  obtain ⟨absent, _⟩ := List.nodup_cons.mp (List.nodup_middle.mp distinct)
  rw [List.mem_append, not_or] at absent
  have sameBefore : (ledger.append format config row today now).rowsOfAll format base before =
      ledger.rowsOfAll format base before := rowsOfAll_append_of_notMem row now absent.1
  have sameAfter : (ledger.append format config row today now).rowsOfAll format base after =
      ledger.rowsOfAll format base after := rowsOfAll_append_of_notMem row now absent.2
  unfold Ledger.rowsOfAll at sameBefore sameAfter ⊢
  rw [List.flatMap_append, List.flatMap_cons, sameBefore, sameAfter, rowsOf_append, if_pos rfl,
    List.flatMap_append, List.flatMap_singleton]
  simp

theorem HasLastRows.append {phase row today now}
    (has : HasLastRows format base keySelector ⟨ledger, phase, appended⟩)
    (met : LosesNothing format base config keySelector ⟨ledger, phase, appended⟩
      (.append row today now)) :
    HasLastRows format base keySelector
      ⟨ledger.append format config row today now, phase, appended ++ [row]⟩ := by
  cases phase with
  | reading remaining rows =>
    obtain ⟨before, after, rfl, latest⟩ := met
    obtain ⟨distinct, ends⟩ := has
    refine ⟨distinct, ?_⟩
    rw [rowsOfAll_append row now distinct, ← List.append_assoc]
    refine EndWithLast.concat ?_ latest
    rw [List.append_assoc]
    unfold Ledger.rowsOfAll at ends ⊢
    rw [← List.flatMap_append, List.append_assoc]
    exact ends
  | removed kept => exact KeptOrInFiles.append has row today now
  | made kept => exact KeptOrInFiles.append has row today now
  | writing kept date => exact KeptOrInFiles.append has row today now
  | idle => exact InFiles.append has row today now
  | unlisted => exact InFiles.append has row today now
  | written kept date => exact InFiles.append has row today now

theorem HasLastRows.listFiles
    (has : HasLastRows format base keySelector ⟨ledger, .idle, appended⟩)
    (met : LosesNothing format base config keySelector ⟨ledger, .idle, appended⟩ .listFiles) :
    HasLastRows format base keySelector ⟨ledger, ledger.listPhase, appended⟩ := by
  unfold Ledger.listPhase
  cases directory : ledger.directory with
  | none => exact has
  | some files =>
    refine ⟨?_, met files directory⟩
    have perm := (LedgerFile.byName.comap Prod.fst).toSorted_perm files.entries
    exact (perm.map Prod.fst).nodup_iff.mpr files.nodup

theorem collectHot_all (cache : List (HotEntry Row)) (now : ℕ) :
    (collectHot (matchesFilter base {}) now none cache).1 = liveRows cache now := by
  rw [collectHot_eq]
  exact List.filter_eq_self.mpr fun entry _ => LedgerHistory.matchesFilter_all entry

theorem HasLastRows.removeDirectory {rows : List Row}
    (has : HasLastRows format base keySelector ⟨ledger, .reading [] rows, appended⟩) :
    HasLastRows format base keySelector
      ⟨{ ledger with directory := none },
        .removed ((lastByKey rows keySelector).entries.map Prod.snd), appended⟩ := by
  intro key row isLast
  have isRead := has.2 key row isLast
  rw [Ledger.rowsOfAll, List.flatMap_nil, List.append_nil] at isRead
  exact .inl (mem_lastByKey isRead)

theorem HasLastRows.writeRows {date}
    (has : HasLastRows format base keySelector ⟨ledger, .writing kept date, appended⟩)
    (empty : ledger.lines ⟨date, 0⟩ = []) :
    HasLastRows format base keySelector
      ⟨ledger.writeFile ⟨date, 0⟩ (kept.map format.stringify), .written kept date, appended⟩ := by
  intro key row isLast
  rcases has isLast with isKept | ⟨file, contained⟩
  · refine ⟨⟨date, 0⟩, ?_⟩
    rw [Ledger.lines_writeFile, if_pos rfl]
    exact List.mem_map_of_mem isKept
  · refine ⟨file, ?_⟩
    rw [Ledger.lines_writeFile, if_neg]
    · exact contained
    · rintro rfl
      rw [empty] at contained
      cases contained

theorem HasLastRows.step {state next event} (has : HasLastRows format base keySelector state)
    (met : LosesNothing format base config keySelector state event)
    (taken : compactingStep format base config keySelector state event = some next) :
    HasLastRows format base keySelector next := by
  unfold compactingStep at taken
  split at taken
  all_goals cases taken
  · exact has.append met
  · next ledger phase appended cutoff =>
    refine has.of_lines (lines_of_unswept ?_)
    cases phase <;> exact met
  · exact has.listFiles met
  · refine ⟨List.nodup_nil, ?_⟩
    rw [collectHot_all, Ledger.rowsOfAll, List.flatMap_nil, List.append_nil]
    exact met
  · obtain ⟨distinct, ends⟩ := has
    refine ⟨distinct.of_cons, ?_⟩
    rw [List.append_assoc]
    exact ends
  · exact has.removeDirectory
  · next ledger kept appended =>
    refine KeptOrInFiles.of_lines has fun file => ?_
    unfold Ledger.lines
    cases ledger.directory <;> rfl
  · exact has
  · exact has.writeRows met
  · exact InFiles.of_lines has fun file => rfl

/-! ### Any run -/

/-- Whatever is appended in any order with the steps of compaction, if no step loses a row, the row
that was appended last of every key is in a file where no compaction is under way. -/
theorem lastRows_contained {ledger : Ledger Row Line} {events : List (CompactingEvent Row)}
    {last : CompactingLedger Row Line}
    (run : Run (compactingStep format base config keySelector) ⟨ledger, .idle, []⟩ events last)
    (meets : Run.Meets (compactingStep format base config keySelector)
      (LosesNothing format base config keySelector) ⟨ledger, .idle, []⟩ events)
    (idle : last.phase = .idle) {key : String} {row : Row}
    (isLast : lastOf keySelector key last.appended = some row) :
    last.ledger.Contains format row := by
  have starts : HasLastRows format base keySelector
      (⟨ledger, .idle, []⟩ : CompactingLedger Row Line) := by
    intro key row isLast
    cases isLast
  have keeps : ∀ state event next, HasLastRows format base keySelector state →
      LosesNothing format base config keySelector state event →
        compactingStep format base config keySelector state event = some next →
          HasLastRows format base keySelector next :=
    fun _ _ _ has met taken => has.step met taken
  have holds := run.keeps_of_meets keeps meets starts
  obtain ⟨ledger, phase, appended⟩ := last
  obtain rfl : phase = .idle := idle
  exact holds isLast

end

/-! ### A second row meanwhile -/

section

open LedgerHistory

def oneKey (_ : String) : String := "key"

/-- The ledger after some events. -/
def compacting (events : List (CompactingEvent String)) : CompactingLedger String String :=
  (execute (compactingStep textFormat textBase {} oneKey) {} events).getD {}

/-- A second row comes while the file is to be read, and a third one once it was written. -/
def readInTime : List (CompactingEvent String) :=
  [.append "first" newYear 0, .listFiles, .append "second" newYear 0, .readFile, .removeDirectory,
    .makeDirectory, .readDate newYear, .writeRows, .append "third" newYear 0, .finish 0]

theorem lastRows_contained_readInTime :
    (compacting readInTime).ledger.Contains textFormat "third" := by
  have run : Run (compactingStep textFormat textBase {} oneKey) {} readInTime
      (compacting readInTime) := run_of_execute rfl
  have meets : Run.Meets (compactingStep textFormat textBase {} oneKey)
      (LosesNothing textFormat textBase {} oneKey) {} readInTime := by
    refine .cons trivial rfl (.cons ?_ rfl (.cons ⟨[], [], rfl, by simp [Ledger.rowsOfAll]⟩ rfl
      (.cons trivial rfl (.cons trivial rfl (.cons trivial rfl (.cons trivial rfl
        (.cons rfl rfl (.cons trivial rfl (.cons trivial rfl (.nil _))))))))))
    intro files directory key row isLast
    cases directory
    exact isLast
  have isLast : lastOf oneKey "key" (compacting readInTime).appended = some "third" := rfl
  exact lastRows_contained run meets rfl isLast

/-- A second row comes once its file was read, and is removed with it. -/
def readTooEarly : List (CompactingEvent String) :=
  [.append "first" newYear 0, .listFiles, .readFile, .append "second" newYear 0, .removeDirectory,
    .makeDirectory, .readDate newYear, .writeRows, .finish 0]

theorem second_row_removed : ¬ ∀ (ledger : Ledger String String)
    (events : List (CompactingEvent String)) (last : CompactingLedger String String)
    (key row : String),
      Run (compactingStep textFormat textBase {} oneKey) ⟨ledger, .idle, []⟩ events last →
        last.phase = .idle → lastOf oneKey key last.appended = some row →
          last.ledger.Contains textFormat row := by
  intro always
  obtain ⟨file, contained⟩ := always {} readTooEarly (compacting readTooEarly) "key" "second"
    (run_of_execute rfl) rfl rfl
  have directory : (compacting readTooEarly).ledger.directory =
      some (OrderedMap.empty.set ⟨newYear, 0⟩ ["first"]) := rfl
  rw [Ledger.lines, directory] at contained
  change "second" ∈ ((OrderedMap.empty.set ⟨newYear, 0⟩ ["first"]).get file).getD [] at contained
  rw [OrderedMap.get_set] at contained
  split at contained
  · exact absurd contained (by decide)
  · cases contained

end

end Senars.Storage
