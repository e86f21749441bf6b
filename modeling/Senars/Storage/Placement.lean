/-
This file is about where the rows of a ledger are. What was written to each file is kept
beside the ledger, in the order it was written. The rows that are read back are then
those that are kept, sorted by the names of their files.
-/

import Senars.Library.Runs
import Senars.Storage.Ledger

namespace Senars.Storage

open Library

variable {Row Line : Type} {format : RowFormat Row Line} {base : BaseLedgerEntry Row}
  {config : LedgerConfig}

namespace Ledger

/-! ### The lines of the files -/

variable {ledger : Ledger Row Line}

theorem lines_writeFile (file other : LedgerFile) (lines : List Line) :
    (ledger.writeFile file lines).lines other =
      if other = file then lines else ledger.lines other := by
  show (((ledger.directory.getD .empty).set file lines).get other).getD [] = _
  rw [OrderedMap.get_set]
  by_cases same : other = file
  · rw [if_pos same, if_pos same]
    rfl
  · rw [if_neg same, if_neg same]
    unfold Ledger.lines
    cases ledger.directory with
    | none => rfl
    | some files => rfl

theorem lines_rollDay (today : CalendarDay) (file : LedgerFile) :
    (ledger.rollDay today).lines file = ledger.lines file := by
  unfold rollDay
  split <;> rfl

theorem lines_openFile (current file : LedgerFile) :
    (ledger.openFile current).lines file = ledger.lines file := by
  unfold openFile
  split
  · rfl
  · unfold Ledger.lines
    cases ledger.directory with
    | none => rfl
    | some files => rfl

/-- What writing a line does: the line is put last in a file of the day, which is then the
current one. -/
structure Written (before next : Ledger Row Line) (today : CalendarDay) (line : Line) : Prop where
  currentFile : next.currentFile = some ⟨today, next.rolloverIndex⟩
  currentDay : next.currentDay = some today
  currentEntries : 0 < next.currentEntries
  directory : next.directory.isSome
  hotCache : next.hotCache = before.hotCache
  hotSeq : next.hotSeq = before.hotSeq
  lines : ∀ file, next.lines file =
    if file = ⟨today, next.rolloverIndex⟩ then before.lines file ++ [line] else before.lines file
  /-- A further file is begun only where one of the day has entries. -/
  further : next.rolloverIndex ≠ 0 →
    before.currentDay = some today ∧ before.rolloverIndex ≠ 0 ∨
      before.currentFile = some ⟨today, 0⟩ ∧ 0 < before.currentEntries

theorem rollDay_spec (ledger : Ledger Row Line) (today : CalendarDay) :
    (ledger.rollDay today).currentDay = some today ∧
      (ledger.rollDay today).currentFile = ledger.currentFile ∧
      (ledger.rollDay today).currentEntries = ledger.currentEntries ∧
      (ledger.rollDay today).hotCache = ledger.hotCache ∧
      (ledger.rollDay today).hotSeq = ledger.hotSeq ∧
      ((ledger.rollDay today).rolloverIndex = 0 ∨
        ledger.currentDay = some today ∧
          (ledger.rollDay today).rolloverIndex = ledger.rolloverIndex) := by
  unfold rollDay
  split
  · rename_i same
    exact ⟨same, rfl, rfl, rfl, rfl, .inr ⟨same, rfl⟩⟩
  · exact ⟨rfl, rfl, rfl, rfl, rfl, .inl rfl⟩

theorem openFile_spec (ledger : Ledger Row Line) (file : LedgerFile) :
    (ledger.openFile file).currentFile = some file ∧
      (ledger.openFile file).currentDay = ledger.currentDay ∧
      (ledger.openFile file).rolloverIndex = ledger.rolloverIndex ∧
      (ledger.openFile file).hotCache = ledger.hotCache ∧
      (ledger.openFile file).hotSeq = ledger.hotSeq ∧
      (0 < (ledger.openFile file).currentEntries →
        ledger.currentFile = some file ∧ 0 < ledger.currentEntries) := by
  unfold openFile
  split
  · rename_i same
    exact ⟨same, rfl, rfl, rfl, rfl, fun positive => ⟨same, positive⟩⟩
  · exact ⟨rfl, rfl, rfl, rfl, rfl, fun positive => absurd positive (by simp)⟩

theorem Written.of_opened {before opened : Ledger Row Line} {today index} (line : Line)
    (rolloverIndex : opened.rolloverIndex = index)
    (currentFile : opened.currentFile = some ⟨today, index⟩)
    (currentDay : opened.currentDay = some today) (hotCache : opened.hotCache = before.hotCache)
    (hotSeq : opened.hotSeq = before.hotSeq)
    (lines : ∀ file, opened.lines file = before.lines file) (further : index ≠ 0 →
      before.currentDay = some today ∧ before.rolloverIndex ≠ 0 ∨
        before.currentFile = some ⟨today, 0⟩ ∧ 0 < before.currentEntries) :
    Written before (opened.appendRow ⟨today, index⟩ line) today line := by
  subst rolloverIndex
  refine ⟨currentFile, currentDay, Nat.succ_pos _, rfl, hotCache, hotSeq, fun file => ?_, further⟩
  refine (lines_writeFile _ file _).trans ?_
  show (if file = ⟨today, opened.rolloverIndex⟩ then _ else _) =
    if file = ⟨today, opened.rolloverIndex⟩ then _ else _
  by_cases same : file = ⟨today, opened.rolloverIndex⟩
  · rw [if_pos same, if_pos same, lines, same]
  · rw [if_neg same, if_neg same, lines]

theorem writeToFile_spec (config : LedgerConfig) (ledger : Ledger Row Line) (today : CalendarDay)
    (line : Line) : Written ledger (ledger.writeToFile config today line) today line := by
  obtain ⟨rolledDay, rolledFile, rolledEntries, rolledHot, rolledSeq, rolledIndex⟩ :=
    rollDay_spec ledger today
  have openedLines : ∀ file other, ((ledger.rollDay today).openFile other).lines file =
      ledger.lines file := fun file other => (lines_openFile other file).trans (lines_rollDay _ _)
  unfold writeToFile
  dsimp only
  generalize isIndex : (ledger.rollDay today).rolloverIndex = index at *
  obtain ⟨openedFile, openedDay, openedIndex, openedHot, openedSeq, openedEntries⟩ :=
    openFile_spec (ledger.rollDay today) ⟨today, index⟩
  split
  · rename_i full
    obtain ⟨nextFile, nextDay, nextIndex, nextHot, nextSeq, _⟩ := openFile_spec
      { (ledger.rollDay today).openFile ⟨today, index⟩ with
        rolloverIndex := ((ledger.rollDay today).openFile ⟨today, index⟩).rolloverIndex + 1
        currentFile := none }
      ⟨today, ((ledger.rollDay today).openFile ⟨today, index⟩).rolloverIndex + 1⟩
    refine Written.of_opened line nextIndex nextFile (nextDay.trans (openedDay.trans rolledDay))
      (nextHot.trans (openedHot.trans rolledHot)) (nextSeq.trans (openedSeq.trans rolledSeq))
      (fun file => (lines_openFile _ file).trans (openedLines file _)) fun _ => ?_
    obtain ⟨current, entries⟩ := openedEntries (by omega)
    rw [rolledFile] at current
    rw [rolledEntries] at entries
    rcases rolledIndex with first | ⟨sameDay, sameIndex⟩
    · rw [first] at current
      exact .inr ⟨current, entries⟩
    · by_cases first : index = 0
      · rw [first] at current
        exact .inr ⟨current, entries⟩
      · exact .inl ⟨sameDay, sameIndex ▸ first⟩
  · refine Written.of_opened line (openedIndex.trans isIndex) openedFile (openedDay.trans rolledDay)
      (openedHot.trans rolledHot) (openedSeq.trans rolledSeq)
      (fun file => openedLines file _) fun further => ?_
    rcases rolledIndex with first | ⟨sameDay, sameIndex⟩
    · exact absurd first further
    · exact .inl ⟨sameDay, sameIndex ▸ further⟩

theorem append_eq (format : RowFormat Row Line) (config : LedgerConfig) (ledger : Ledger Row Line)
    (row : Row) (today : CalendarDay) (now : ℕ) :
    ∃ hotCache hotSeq, ledger.append format config row today now =
      Ledger.writeToFile config { ledger with hotCache, hotSeq } today (format.stringify row) := by
  unfold append
  split <;> exact ⟨_, _, rfl⟩

/-! ### What is read back -/

/-- Placed rows in the order of the names of their files. -/
def byFile : Comparison (LedgerFile × Row) := LedgerFile.byName.comap Prod.fst

theorem byFile_le (first second : LedgerFile × Row) :
    byFile.le first second = LedgerFile.byName.le first.1 second.1 := rfl

/-- The files hold what was placed in them, in order. -/
def Reflects (format : RowFormat Row Line) (ledger : Ledger Row Line)
    (placed : List (LedgerFile × Row)) : Prop :=
  ∀ file, ledger.lines file = (placed.filter (·.1 = file)).map fun row => format.stringify row.2

theorem scanFiles_eq (accept : Line → Option Row) (limit : Option ℕ)
    (files : List (LedgerFile × List Line)) :
    scanFiles accept limit files = takeFirst ((files.flatMap (·.2)).filterMap accept) limit := by
  induction files generalizing limit with
  | nil =>
    cases limit with
    | none => rfl
    | some count => cases count <;> rfl
  | cons file rest ih =>
    rw [List.flatMap_cons, List.filterMap_append, takeFirst_append]
    by_cases full : limit = some 0
    · subst full
      rfl
    · have unfolded : scanFiles accept limit (file :: rest) = collectUpTo accept limit file.2 ++
          scanFiles accept (limit.map (· - (collectUpTo accept limit file.2).length)) rest := by
        cases limit with
        | none => rfl
        | some count =>
          cases count with
          | zero => exact absurd rfl full
          | succ count => rfl
      rw [unfolded, ih, collectUpTo_eq]

theorem mem_entries_lines {files file lines} (isFile : (file, lines) ∈ files.entries)
    (directory : ledger.directory = some files) : ledger.lines file = lines := by
  rw [Ledger.lines, directory]
  show (files.get file).getD [] = lines
  rw [(files.get_eq_some_iff file lines).mpr isFile]
  rfl

theorem Reflects.flatMap_listed {placed files} (reflects : Reflects format ledger placed)
    (directory : ledger.directory = some files) :
    (listed files).flatMap (·.2) =
      (byFile.toSorted placed).map fun row => format.stringify row.2 := by
  have each : ∀ file ∈ listed files,
      file.2 = (placed.filter (·.1 = file.1)).map fun row => format.stringify row.2 := by
    intro file isListed
    rw [← reflects file.1]
    exact (mem_entries_lines (Comparison.mem_toSorted.mp isListed) directory).symm
  have keys : ((listed files).map Prod.fst).Perm (files.entries.map Prod.fst) :=
    (Comparison.toSorted_perm _ _).map Prod.fst
  have sorted : LedgerFile.byName.Sorted ((listed files).map Prod.fst) :=
    List.pairwise_map.mpr
      ((LedgerFile.byName.comap Prod.fst).toSorted_sorted files.entries)
  have covers : ∀ row ∈ placed, row.1 ∈ (listed files).map Prod.fst := by
    intro row isPlaced
    rw [keys.mem_iff]
    have held : ledger.lines row.1 ≠ [] := by
      rw [reflects row.1]
      exact List.ne_nil_of_mem
        (List.mem_map_of_mem (List.mem_filter.mpr ⟨isPlaced, decide_eq_true rfl⟩))
    cases found : files.get row.1 with
    | none =>
      rw [Ledger.lines, directory] at held
      exact absurd (show (files.get row.1).getD [] = [] by rw [found]; rfl) held
    | some lines =>
      exact List.mem_map.mpr ⟨(row.1, lines), (files.get_eq_some_iff row.1 lines).mp found, rfl⟩
  calc (listed files).flatMap (·.2)
      = (listed files).flatMap fun file =>
          (placed.filter (·.1 = file.1)).map fun row => format.stringify row.2 :=
        List.flatMap_congr each
    _ = (((listed files).map Prod.fst).flatMap fun file => placed.filter (·.1 = file)).map
          fun row => format.stringify row.2 := by
        rw [List.map_flatMap, List.flatMap_map]
    _ = (byFile.toSorted placed).map fun row => format.stringify row.2 := by
        rw [LedgerFile.byName.flatMap_filter_eq_toSorted Prod.fst sorted
          (keys.nodup_iff.mpr files.nodup) (fun _ _ _ _ tie => LedgerFile.eq_of_tied tie) covers]
        rfl

variable (base)

theorem filterMap_accepts (filter : LedgerQuery) (rows : List Row) :
    (rows.map format.stringify).filterMap (accepts format base filter) =
      rows.filter (matchesFilter base filter) := by
  rw [List.filterMap_map, ← List.filterMap_eq_filter]
  refine List.filterMap_congr fun row _ => ?_
  show (format.safeParse (format.stringify row)).filter _ = _
  rw [format.safeParse_stringify]
  rfl

theorem Reflects.scanDisk {placed} (reflects : Reflects format ledger placed)
    (filter : LedgerQuery) :
    (ledger.scanDisk format base filter).getD [] =
      takeFirst (((byFile.toSorted placed).map Prod.snd).filter (matchesFilter base filter))
        filter.limit := by
  cases directory : ledger.directory with
  | none =>
    have nothing : placed = [] := by
      refine List.eq_nil_iff_forall_not_mem.mpr fun row isPlaced => ?_
      have held := reflects row.1
      rw [Ledger.lines, directory] at held
      have none := List.map_eq_nil_iff.mp held.symm
      exact List.filter_eq_nil_iff.mp none row isPlaced (decide_eq_true rfl)
    rw [nothing, Ledger.scanDisk, directory]
    exact (takeFirst_nil _).symm
  | some files =>
    rw [Ledger.scanDisk, directory]
    show scanFiles _ _ _ = _
    rw [scanFiles_eq, reflects.flatMap_listed directory, ← filterMap_accepts,
      List.map_map]
    rfl

end Ledger

/-! ### Histories -/

/-- A ledger, with the rows that were ever appended and those that are still in a file. -/
structure LedgerHistory (Row Line : Type) where
  ledger : Ledger Row Line := {}
  appended : List Row := []
  placed : List (LedgerFile × Row) := []

inductive LedgerEvent (Row : Type) where
  | append (row : Row) (today : CalendarDay) (now : ℕ)
  | query (filter : LedgerQuery) (now : ℕ)
  | rotate
  | pruneOldFiles (cutoff : CalendarDay)
  | invalidateHotCache

namespace LedgerHistory

section

variable (format : RowFormat Row Line) (base : BaseLedgerEntry Row) (config : LedgerConfig)

def after (history : LedgerHistory Row Line) : LedgerEvent Row → LedgerHistory Row Line
  | .append row today now =>
    let ledger := history.ledger.append format config row today now
    { ledger
      appended := history.appended ++ [row]
      placed := history.placed ++ [(⟨today, ledger.rolloverIndex⟩, row)] }
  | .query filter now =>
    { history with ledger := (history.ledger.query format base filter now).1 }
  | .rotate => { history with ledger := history.ledger.rotate }
  | .pruneOldFiles cutoff =>
    { history with
      ledger := history.ledger.pruneOldFiles config cutoff
      placed := if config.retentionDays = 0 then history.placed
        else history.placed.filter (cutoff ≤ ·.1.day) }
  | .invalidateHotCache => { history with ledger := history.ledger.invalidateHotCache }

/-- One event. The days of the appends do not go back. -/
def step : Machine (LedgerHistory Row Line) (LedgerEvent Row) := fun history event =>
  match event with
  | .append _ today _ =>
    if history.ledger.currentDay.all (· ≤ today) then some (history.after format base config event)
    else none
  | _ => some (history.after format base config event)

end

/-- Nothing that was appended has been swept. -/
def Unswept (history : LedgerHistory Row Line) : Prop :=
  history.placed.map Prod.snd = history.appended

/-- Nothing was written to any but the first file of a day. -/
def FirstFilesOnly (history : LedgerHistory Row Line) : Prop :=
  ∀ row ∈ history.placed, row.1.index = 0

instance (history : LedgerHistory Row Line) : Decidable history.FirstFilesOnly :=
  inferInstanceAs (Decidable (∀ row ∈ history.placed, row.1.index = 0))

/-- What holds of the placed rows and the current file of a ledger. -/
structure Sound (format : RowFormat Row Line) (history : LedgerHistory Row Line) : Prop where
  reflects : Ledger.Reflects format history.ledger history.placed
  within : (history.placed.map Prod.snd).Sublist history.appended
  days : history.placed.Pairwise (·.1.day ≤ ·.1.day)
  upToDay : ∀ row ∈ history.placed, ∃ day, history.ledger.currentDay = some day ∧ row.1.day ≤ day
  /-- Before what is in a further file of a day something was written to the first one. -/
  begun : history.Unswept → ∀ row ∈ history.placed, row.1.index ≠ 0 →
    ∃ first, [first, row].Sublist history.placed ∧ first.1 = ⟨row.1.day, 0⟩
  further : history.Unswept → history.ledger.rolloverIndex ≠ 0 →
    ∀ day, history.ledger.currentDay = some day → ∃ row ∈ history.placed, row.1 = ⟨day, 0⟩
  current : history.Unswept → 0 < history.ledger.currentEntries →
    ∀ file, history.ledger.currentFile = some file → ∃ row ∈ history.placed, row.1 = file
  /-- Nothing is in the hot cache before there is a directory. -/
  made : history.ledger.directory = none → history.ledger.hotCache = []

variable {history : LedgerHistory Row Line}

theorem sound_new : Sound format ({} : LedgerHistory Row Line) where
  reflects _ := rfl
  within := .slnil
  days := .nil
  upToDay _ none := absurd none List.not_mem_nil
  begun _ _ none := absurd none List.not_mem_nil
  further _ further := absurd rfl further
  current _ positive := absurd positive (by simp)
  made _ := rfl

theorem Sound.of_same {ledger} (sound : Sound format history)
    (directory : ledger.directory = history.ledger.directory)
    (currentDay : ledger.currentDay = history.ledger.currentDay)
    (rolloverIndex : ledger.rolloverIndex = history.ledger.rolloverIndex)
    (currentFile : ledger.currentFile = history.ledger.currentFile)
    (currentEntries : ledger.currentEntries = history.ledger.currentEntries)
    (made : history.ledger.hotCache = [] → ledger.directory = none → ledger.hotCache = []) :
    Sound format { history with ledger } where
  reflects file := by
    rw [← sound.reflects file, Ledger.lines, directory]
    rfl
  within := sound.within
  days := sound.days
  upToDay := currentDay ▸ sound.upToDay
  begun := sound.begun
  further := by
    rw [rolloverIndex, currentDay]
    exact sound.further
  current := by
    rw [currentEntries, currentFile]
    exact sound.current
  made missing := made (sound.made (directory ▸ missing)) missing

theorem Sound.rotate (sound : Sound format history) :
    Sound format { history with ledger := history.ledger.rotate } where
  reflects := sound.reflects
  within := sound.within
  days := sound.days
  upToDay := sound.upToDay
  begun := sound.begun
  further _ further := absurd rfl further
  current _ positive := absurd positive (by simp [Ledger.rotate])
  made := sound.made

theorem Sound.append (sound : Sound format history) (row : Row) {today} (now : ℕ)
    (later : ∀ day, history.ledger.currentDay = some day → day ≤ today) :
    Sound format (history.after format base config (.append row today now)) := by
  unfold after
  dsimp only
  obtain ⟨hotCache, hotSeq, appends⟩ :=
    history.ledger.append_eq format config row today now
  rw [appends]
  have written := Ledger.writeToFile_spec config { history.ledger with hotCache, hotSeq } today
    (format.stringify row)
  generalize Ledger.writeToFile config { history.ledger with hotCache, hotSeq } today
    (format.stringify row) = next at written
  have unsweptBefore : (history.placed ++ [((⟨today, next.rolloverIndex⟩ : LedgerFile), row)]).map
      Prod.snd = history.appended ++ [row] → history.Unswept := by
    rw [List.map_append]
    exact List.append_cancel_right
  have begins : history.Unswept → next.rolloverIndex ≠ 0 →
      ∃ first ∈ history.placed, first.1 = ⟨today, 0⟩ := by
    intro unswept further
    rcases written.further further with ⟨sameDay, further⟩ | ⟨first, positive⟩
    · exact sound.further unswept further today sameDay
    · exact sound.current unswept positive _ first
  refine ⟨?_, ?_, ?_, ?_, ?_, ?_, ?_, ?_⟩
  · intro file
    rw [written.lines, List.filter_append, List.map_append, ← sound.reflects file]
    by_cases same : file = ⟨today, next.rolloverIndex⟩
    · rw [if_pos same, List.filter_cons_of_pos (by simpa using same.symm)]
      rfl
    · rw [if_neg same, List.filter_cons_of_neg (by simpa using Ne.symm same)]
      exact (List.append_nil _).symm
  · show ((_ ++ [_]).map _).Sublist (_ ++ [row])
    rw [List.map_append]
    exact sound.within.append (.refl _)
  · refine List.pairwise_append.mpr ⟨sound.days, List.pairwise_singleton _ _, ?_⟩
    intro one isPlaced other isNew
    obtain ⟨day, isDay, below⟩ := sound.upToDay one isPlaced
    rw [List.mem_singleton.mp isNew]
    exact below.trans (later day isDay)
  · intro one isPlaced
    refine ⟨today, written.currentDay, ?_⟩
    rcases List.mem_append.mp isPlaced with old | new
    · obtain ⟨day, isDay, below⟩ := sound.upToDay one old
      exact below.trans (later day isDay)
    · rw [List.mem_singleton.mp new]
  · intro unswept one isPlaced further
    rcases List.mem_append.mp isPlaced with old | new
    · obtain ⟨first, before, isFirst⟩ := sound.begun (unsweptBefore unswept) one old further
      exact ⟨first, before.trans (List.sublist_append_left _ _), isFirst⟩
    · obtain rfl := List.mem_singleton.mp new
      obtain ⟨first, isPlaced, isFirst⟩ := begins (unsweptBefore unswept) further
      exact ⟨first, (List.singleton_sublist.mpr isPlaced).append (.refl _), isFirst⟩
  · intro unswept further day isDay
    cases written.currentDay.symm.trans isDay
    obtain ⟨first, isPlaced, isFirst⟩ := begins (unsweptBefore unswept) further
    exact ⟨first, List.mem_append_left _ isPlaced, isFirst⟩
  · intro _ _ file isCurrent
    cases written.currentFile.symm.trans isCurrent
    exact ⟨_, List.mem_append_right _ (List.mem_singleton_self _), rfl⟩
  · intro missing
    have made := written.directory
    rw [show next.directory = none from missing] at made
    cases made

theorem lines_pruneOldFiles {ledger : Ledger Row Line} {cutoff}
    (retains : config.retentionDays ≠ 0) (file : LedgerFile) :
    (ledger.pruneOldFiles config cutoff).lines file =
      if cutoff ≤ file.day then ledger.lines file else [] := by
  unfold Ledger.pruneOldFiles Ledger.lines
  rw [if_neg retains]
  cases ledger.directory with
  | none => exact (ite_self []).symm
  | some files =>
    show ((files.filterKeys _).get file).getD [] = if _ then (files.get file).getD [] else []
    rw [OrderedMap.get_filterKeys]
    by_cases kept : cutoff ≤ file.day
    · rw [if_pos (decide_eq_true kept), if_pos kept]
    · rw [if_neg (by simpa using kept), if_neg kept]
      rfl

theorem Sound.swept_nothing (sound : Sound format history) (cutoff : CalendarDay)
    (unswept : (history.placed.filter (cutoff ≤ ·.1.day)).map Prod.snd = history.appended) :
    history.placed.filter (cutoff ≤ ·.1.day) = history.placed := by
  have least := sound.within.length_le
  have same := congrArg List.length unswept
  rw [List.length_map] at least same
  exact List.filter_sublist.eq_of_length
    (le_antisymm List.filter_sublist.length_le (same ▸ least))

theorem Sound.pruneOldFiles (sound : Sound format history) (cutoff : CalendarDay) :
    Sound format (history.after format base config (.pruneOldFiles cutoff)) := by
  unfold after
  dsimp only
  by_cases retains : config.retentionDays = 0
  · rw [if_pos retains, Ledger.pruneOldFiles, if_pos retains]
    exact sound
  rw [if_neg retains]
  have kept : (history.placed.filter (cutoff ≤ ·.1.day)).Sublist history.placed :=
    List.filter_sublist
  have all := fun unswept => sound.swept_nothing cutoff unswept
  have unswept : ∀ (unswept : (history.placed.filter (cutoff ≤ ·.1.day)).map Prod.snd =
      history.appended), history.Unswept := fun unswept => by rwa [all unswept] at unswept
  have same : ∀ {Field : Type} (field : Ledger Row Line → Field),
      (∀ directory, field { history.ledger with directory } = field history.ledger) →
        field (history.ledger.pruneOldFiles config cutoff) = field history.ledger := by
    intro Field field reads
    rw [Ledger.pruneOldFiles, if_neg retains]
    exact reads _
  refine ⟨?_, (kept.map _).trans sound.within, sound.days.sublist kept, ?_, ?_, ?_, ?_, ?_⟩
  · intro file
    rw [lines_pruneOldFiles retains, List.filter_filter, sound.reflects file]
    by_cases recent : cutoff ≤ file.day
    · rw [if_pos recent]
      congr 1
      refine List.filter_congr fun row _ => ?_
      rw [Bool.eq_iff_iff, Bool.and_eq_true, decide_eq_true_eq, decide_eq_true_eq]
      exact ⟨fun isFile => ⟨isFile, isFile ▸ recent⟩, fun both => both.1⟩
    · rw [if_neg recent]
      refine (List.map_eq_nil_iff.mpr (List.filter_eq_nil_iff.mpr fun row _ both => ?_)).symm
      rw [Bool.and_eq_true, decide_eq_true_eq, decide_eq_true_eq] at both
      exact recent (both.1 ▸ both.2)
  · intro row isPlaced
    obtain ⟨day, isDay, below⟩ := sound.upToDay row (kept.mem isPlaced)
    exact ⟨day, (same (·.currentDay) fun _ => rfl).trans isDay, below⟩
  · intro nothing row isPlaced further
    rw [all nothing]
    exact sound.begun (unswept nothing) row (kept.mem isPlaced) further
  · intro nothing
    rw [all nothing, same (·.rolloverIndex) fun _ => rfl, same (·.currentDay) fun _ => rfl]
    exact sound.further (unswept nothing)
  · intro nothing
    rw [all nothing, same (·.currentEntries) fun _ => rfl, same (·.currentFile) fun _ => rfl]
    exact sound.current (unswept nothing)
  · intro missing
    rw [same (·.hotCache) fun _ => rfl]
    refine sound.made ?_
    rw [Ledger.pruneOldFiles, if_neg retains] at missing
    exact Option.map_eq_none_iff.mp missing

theorem collectHot_nil (accept : Row → Bool) (now : ℕ) (limit : Option ℕ) :
    collectHot accept now limit [] = ([], []) := by
  cases limit with
  | none => rfl
  | some count => cases count <;> rfl

theorem Sound.step {next event} (sound : Sound format history)
    (taken : step format base config history event = some next) : Sound format next := by
  cases event with
  | append row today now =>
    unfold LedgerHistory.step at taken
    dsimp only at taken
    split at taken
    · rename_i later
      cases taken
      refine sound.append row now fun day isDay => ?_
      rw [isDay] at later
      exact of_decide_eq_true later
    · cases taken
  | query filter now =>
    cases taken
    have emptied : history.ledger.hotCache = [] → (collectHot (matchesFilter base filter) now
        filter.limit history.ledger.hotCache).2 = [] := fun nothing => by
      rw [nothing]
      exact congrArg Prod.snd (collectHot_nil _ now filter.limit)
    unfold after Ledger.query
    dsimp only
    split
    · exact sound.of_same rfl rfl rfl rfl rfl fun nothing _ => emptied nothing
    · split
      · split
        · exact sound.of_same rfl rfl rfl rfl rfl fun nothing _ => emptied nothing
        · exact sound
      · exact sound.of_same rfl rfl rfl rfl rfl fun nothing _ => emptied nothing
  | rotate =>
    cases taken
    exact sound.rotate
  | pruneOldFiles cutoff =>
    cases taken
    exact sound.pruneOldFiles cutoff
  | invalidateHotCache =>
    cases taken
    exact sound.of_same rfl rfl rfl rfl rfl fun _ _ => rfl

theorem sound_of_run {events}
    (run : Run (step format base config) ({} : LedgerHistory Row Line) events history) :
    Sound format history :=
  run.keeps (fun _ _ _ sound taken => sound.step taken) sound_new

end LedgerHistory

end Senars.Storage
