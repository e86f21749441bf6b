/-
This file is the order in which a ledger reads its rows back. They come as they were
appended exactly where no day has a further file and nothing was swept: of the files of
a day the first one is read last.
-/

import Senars.Storage.Placement

namespace Senars.Storage

open Library

variable {Row Line : Type} {format : RowFormat Row Line} {base : BaseLedgerEntry Row}
  {config : LedgerConfig}

theorem eq_of_perm_of_map {Value Key : Type} {key : Value → Key} {first second : List Value}
    (perm : first.Perm second) (same : first.map key = second.map key)
    (distinct : (first.map key).Nodup) : first = second := by
  refine List.ext_getElem perm.length_eq fun index inFirst inSecond => ?_
  have keys : key first[index] = key second[index] := by
    have atIndex := congrArg (·[index]?) same
    simpa [inFirst, inSecond] using atIndex
  exact List.inj_on_of_nodup_map distinct (List.getElem_mem inFirst)
    (perm.mem_iff.mpr (List.getElem_mem inSecond)) keys

namespace LedgerHistory

variable {history : LedgerHistory Row Line}

theorem matchesFilter_all (entry : Row) : matchesFilter base {} entry = true := rfl

theorem Sound.query_eq (sound : Sound format history) (filter : LedgerQuery) (now : ℕ) :
    (history.ledger.query format base filter now).2 =
      (history.ledger.hotAnswer base filter now).getD
        ((history.ledger.scanDisk format base filter).getD []) := by
  unfold Ledger.query
  cases history.ledger.hotAnswer base filter now with
  | some rows => rfl
  | none =>
    cases read : history.ledger.scanDisk format base filter with
    | some rows => rfl
    | none =>
      have missing : history.ledger.directory = none := Option.map_eq_none_iff.mp read
      show (collectHot _ now _ history.ledger.hotCache).1 = []
      rw [sound.made missing, collectHot_nil]

theorem Sound.query_all (sound : Sound format history) (now : ℕ) :
    (history.ledger.query format base {} now).2 =
      (Ledger.byFile.toSorted history.placed).map Prod.snd := by
  have scanned := sound.reflects.scanDisk base {}
  rw [List.filter_eq_self.mpr fun entry _ => matchesFilter_all entry] at scanned
  rw [sound.query_eq]
  exact scanned

theorem Sound.sorted_of_firstFilesOnly (sound : Sound format history)
    (firstOnly : history.FirstFilesOnly) : Ledger.byFile.Sorted history.placed := by
  refine sound.days.imp_of_mem fun {one other} isOne isOther forward => ?_
  rcases lt_or_eq_of_le forward with before | same
  · exact (LedgerFile.byName_of_day_lt before).1
  · have files : one.1 = other.1 := by
      obtain ⟨⟨oneDay, oneIndex⟩, oneRow⟩ := one
      obtain ⟨⟨otherDay, otherIndex⟩, otherRow⟩ := other
      obtain rfl : oneIndex = 0 := firstOnly _ isOne
      obtain rfl : otherIndex = 0 := firstOnly _ isOther
      exact congrArg (LedgerFile.mk · 0) same
    show LedgerFile.byName.le one.1 other.1 = true
    rw [files]
    exact LedgerFile.byName.refl other.1

theorem Sound.firstFilesOnly_of_sorted (sound : Sound format history) (unswept : history.Unswept)
    (sorted : Ledger.byFile.Sorted history.placed) : history.FirstFilesOnly := by
  intro row isPlaced
  by_contra further
  obtain ⟨first, before, isFirst⟩ := sound.begun unswept row isPlaced further
  have forward : LedgerFile.byName.le first.1 row.1 = true :=
    (List.pairwise_cons.mp (sorted.sublist before)).1 row (List.mem_singleton_self row)
  rw [isFirst, (LedgerFile.byName_of_index_ne_zero further).2] at forward
  cases forward

/-! ### How many rows a day has -/

/-- No day has more rows than its file is for. -/
def EachDayFits (config : LedgerConfig) (history : LedgerHistory Row Line) : Prop :=
  ∀ day, (history.placed.filter (·.1.day = day)).length ≤ max 1 config.maxEntriesPerFile

/-- A day's rows are counted with its file, until a further file is begun. -/
structure Counted (config : LedgerConfig) (history : LedgerHistory Row Line) : Prop where
  fits : history.FirstFilesOnly ↔ history.EachDayFits config
  /-- The current file is the first one of the day and has its rows. -/
  entries : history.FirstFilesOnly → ∀ day, history.ledger.currentDay = some day →
    history.ledger.rolloverIndex = 0 ∧ history.ledger.currentFile = some ⟨day, 0⟩ ∧
      history.ledger.currentEntries = (history.placed.filter (·.1.day = day)).length
  noFile : history.ledger.currentDay = none → history.ledger.currentFile = none

theorem writeToFile_same_day (config : LedgerConfig) (ledger : Ledger Row Line) {today}
    (line : Line) (day : ledger.currentDay = some today) (index : ledger.rolloverIndex = 0)
    (file : ledger.currentFile = some ⟨today, 0⟩) :
    if max 1 config.maxEntriesPerFile ≤ ledger.currentEntries then
      (ledger.writeToFile config today line).rolloverIndex = 1
    else
      (ledger.writeToFile config today line).rolloverIndex = 0 ∧
        (ledger.writeToFile config today line).currentEntries = ledger.currentEntries + 1 := by
  have rolled : ledger.rollDay today = ledger := if_pos day
  have opened : ledger.openFile ⟨today, ledger.rolloverIndex⟩ = ledger := by
    rw [index]
    exact if_pos file
  unfold Ledger.writeToFile
  dsimp only
  rw [rolled, opened]
  split
  · show (Ledger.openFile _ _).rolloverIndex = 1
    exact congrArg (· + 1) index
  · exact ⟨index, rfl⟩

theorem writeToFile_new_day (config : LedgerConfig) (ledger : Ledger Row Line) {today}
    (line : Line) (day : ledger.currentDay ≠ some today)
    (file : ledger.currentFile ≠ some ⟨today, 0⟩) :
    (ledger.writeToFile config today line).rolloverIndex = 0 ∧
      (ledger.writeToFile config today line).currentEntries = 1 := by
  have rolled : ledger.rollDay today =
      { ledger with currentDay := some today, rolloverIndex := 0 } := if_neg day
  have opened : (Ledger.openFile { ledger with currentDay := some today, rolloverIndex := 0 }
      ⟨today, 0⟩).currentEntries = 0 := by
    rw [Ledger.openFile, if_neg file]
  unfold Ledger.writeToFile
  rw [rolled]
  dsimp only
  rw [if_neg (by omega)]
  exact ⟨(Ledger.openFile_spec _ _).2.2.1, by rw [Ledger.appendRow, opened]⟩

theorem counted_new : Counted config ({} : LedgerHistory Row Line) where
  fits := ⟨fun _ _ => Nat.zero_le _, fun _ _ none => absurd none List.not_mem_nil⟩
  entries _ _ none := by cases none
  noFile _ := rfl

theorem firstFilesOnly_append {placed} {file : LedgerFile} {row : Row} :
    (∀ other ∈ placed ++ [(file, row)], other.1.index = 0) ↔
      (∀ other ∈ placed, other.1.index = 0) ∧ file.index = 0 := by
  rw [List.forall_mem_append, List.forall_mem_singleton]

theorem length_filter_append (placed : List (LedgerFile × Row)) (file : LedgerFile) (row : Row)
    (day : CalendarDay) :
    ((placed ++ [(file, row)]).filter (·.1.day = day)).length =
      (placed.filter (·.1.day = day)).length + if file.day = day then 1 else 0 := by
  rw [List.filter_append, List.length_append]
  by_cases same : file.day = day
  · rw [List.filter_cons_of_pos (by simpa using same), if_pos same]
    rfl
  · rw [List.filter_cons_of_neg (by simpa using same), if_neg same]
    rfl

theorem Counted.writeToFile (hotCache : List (HotEntry Row)) (hotSeq : ℕ)
    (counted : Counted config history) (sound : Sound format history)
    (first : history.FirstFilesOnly) {today} (line : Line)
    (later : ∀ day, history.ledger.currentDay = some day → day ≤ today) :
    let rows := (history.placed.filter (·.1.day = today)).length
    let next := Ledger.writeToFile config { history.ledger with hotCache, hotSeq } today line
    if max 1 config.maxEntriesPerFile ≤ rows then next.rolloverIndex = 1
    else next.rolloverIndex = 0 ∧ next.currentEntries = rows + 1 := by
  by_cases day : history.ledger.currentDay = some today
  · obtain ⟨index, file, entries⟩ := counted.entries first today day
    rw [← entries]
    exact writeToFile_same_day config { history.ledger with hotCache, hotSeq } line day index file
  · have none : history.placed.filter (·.1.day = today) = [] := by
      refine List.filter_eq_nil_iff.mpr fun row isPlaced isToday => ?_
      obtain ⟨last, isLast, below⟩ := sound.upToDay row isPlaced
      rw [of_decide_eq_true isToday] at below
      exact day (isLast.trans (congrArg some (le_antisymm (later last isLast) below)))
    have file : history.ledger.currentFile ≠ some ⟨today, 0⟩ := by
      cases current : history.ledger.currentDay with
      | none =>
        rw [counted.noFile current]
        exact Option.some_ne_none _ |>.symm
      | some last =>
        rw [(counted.entries first last current).2.1]
        intro same
        cases same
        exact day current
    rw [none, List.length_nil, if_neg (by omega)]
    exact writeToFile_new_day config { history.ledger with hotCache, hotSeq } line day file

theorem Counted.append (counted : Counted config history) (sound : Sound format history)
    (row : Row) {today} (now : ℕ)
    (later : ∀ day, history.ledger.currentDay = some day → day ≤ today) :
    Counted config (history.after format base config (.append row today now)) := by
  unfold after
  dsimp only
  obtain ⟨hotCache, hotSeq, appends⟩ := history.ledger.append_eq format config row today now
  rw [appends]
  have written := Ledger.writeToFile_spec config { history.ledger with hotCache, hotSeq } today
    (format.stringify row)
  have goes := fun first => counted.writeToFile hotCache hotSeq sound first
    (format.stringify row) later
  generalize Ledger.writeToFile config { history.ledger with hotCache, hotSeq } today
    (format.stringify row) = next at written goes
  have room : history.FirstFilesOnly → next.rolloverIndex = 0 →
      (history.placed.filter (·.1.day = today)).length < max 1 config.maxEntriesPerFile := by
    intro first index
    by_contra full
    have further := goes first
    rw [if_pos (not_lt.mp full)] at further
    omega
  refine ⟨⟨fun firsts => ?_, fun fits => ?_⟩, ?_, fun none => by
    cases written.currentDay.symm.trans none⟩
  · obtain ⟨first, index⟩ := firstFilesOnly_append.mp firsts
    intro day
    have fitted := counted.fits.mp first day
    have roomToday := room first index
    rw [length_filter_append]
    by_cases same : today = day
    · subst same
      rw [if_pos rfl]
      omega
    · rw [if_neg same]
      exact fitted
  · have counts := fun day => (length_filter_append history.placed ⟨today, next.rolloverIndex⟩ row
      day).symm.trans_le (fits day)
    have first : history.FirstFilesOnly :=
      counted.fits.mpr fun day => (Nat.le_add_right _ _).trans (counts day)
    have today := counts today
    rw [if_pos rfl] at today
    have next := goes first
    rw [if_neg (by omega)] at next
    exact firstFilesOnly_append.mpr ⟨first, next.1⟩
  · intro firsts day isDay
    obtain ⟨first, index⟩ := firstFilesOnly_append.mp firsts
    cases written.currentDay.symm.trans isDay
    have next := goes first
    rw [if_neg (not_le.mpr (room first index))] at next
    refine ⟨index, index ▸ written.currentFile, ?_⟩
    rw [length_filter_append, if_pos rfl]
    exact next.2

theorem Counted.of_same (counted : Counted config history) {ledger : Ledger Row Line}
    (currentDay : ledger.currentDay = history.ledger.currentDay)
    (rolloverIndex : ledger.rolloverIndex = history.ledger.rolloverIndex)
    (currentFile : ledger.currentFile = history.ledger.currentFile)
    (currentEntries : ledger.currentEntries = history.ledger.currentEntries) :
    Counted config { history with ledger } where
  fits := counted.fits
  entries := by
    rw [currentDay, rolloverIndex, currentFile, currentEntries]
    exact counted.entries
  noFile := by
    rw [currentDay, currentFile]
    exact counted.noFile

theorem Counted.step {next event} (sound : Sound format history)
    (counted : history.Unswept → Counted config history) (unrotated : event ≠ .rotate)
    (taken : step format base config history event = some next) (unswept : next.Unswept) :
    Counted config next := by
  cases event with
  | append row today now =>
    unfold LedgerHistory.step at taken
    dsimp only at taken
    split at taken
    · rename_i later
      cases taken
      have before : history.Unswept := by
        have same : (history.placed ++ [_]).map Prod.snd = history.appended ++ [row] := unswept
        rw [List.map_append] at same
        exact List.append_cancel_right same
      refine (counted before).append sound row now fun day isDay => ?_
      rw [isDay] at later
      exact of_decide_eq_true later
    · cases taken
  | query filter now =>
    cases taken
    unfold after Ledger.query
    dsimp only
    split
    · exact (counted unswept).of_same rfl rfl rfl rfl
    · split
      · split
        · exact (counted unswept).of_same rfl rfl rfl rfl
        · exact counted unswept
      · exact (counted unswept).of_same rfl rfl rfl rfl
  | rotate => exact absurd rfl unrotated
  | pruneOldFiles cutoff =>
    cases taken
    unfold after Ledger.pruneOldFiles at unswept ⊢
    dsimp only at unswept ⊢
    by_cases retains : config.retentionDays = 0
    · rw [if_pos retains] at unswept ⊢
      rw [if_pos retains] at unswept ⊢
      exact counted unswept
    · rw [if_neg retains] at unswept ⊢
      rw [if_neg retains] at unswept ⊢
      have same := sound.swept_nothing cutoff unswept
      have before : history.Unswept := by
        rw [Unswept] at unswept
        rwa [same] at unswept
      rw [same]
      exact (counted before).of_same rfl rfl rfl rfl
  | invalidateHotCache =>
    cases taken
    exact (counted unswept).of_same rfl rfl rfl rfl

theorem counts_of_run {events}
    (run : Run (LedgerHistory.step format base config) ({} : LedgerHistory Row Line) events history)
    (unrotated : .rotate ∉ events) (unswept : history.Unswept) : Counted config history := by
  have each : ∀ event ∈ events, event ≠ .rotate :=
    fun event isEvent same => unrotated (same ▸ isEvent)
  have keeps : ∀ history event next,
      Sound format history ∧ (history.Unswept → Counted config history) → event ≠ .rotate →
        LedgerHistory.step format base config history event = some next →
          Sound format next ∧ (next.Unswept → Counted config next) :=
    fun _ _ _ holds unrotated taken =>
      ⟨holds.1.step taken, Counted.step holds.1 holds.2 unrotated taken⟩
  exact (run.keeps_of_meets keeps (run.meets_of_forall each) ⟨sound_new, fun _ => counted_new⟩).2
    unswept

/-! ### The order -/

variable (base) in
theorem Sound.query_eq_appended_iff (sound : Sound format history) (now : ℕ) :
    (history.Unswept ∧ history.FirstFilesOnly →
        (history.ledger.query format base {} now).2 = history.appended) ∧
      (history.appended.Nodup →
        (history.ledger.query format base {} now).2 = history.appended →
          history.Unswept ∧ history.FirstFilesOnly) := by
  rw [sound.query_all]
  refine ⟨?_, fun distinct same => ?_⟩
  · rintro ⟨unswept, firstOnly⟩
    rw [(sound.sorted_of_firstFilesOnly firstOnly).toSorted_eq]
    exact unswept
  · have perm := Ledger.byFile.toSorted_perm history.placed
    have unswept : history.Unswept := by
      refine sound.within.eq_of_length ?_
      rw [← same, List.length_map, List.length_map, perm.length_eq]
    refine ⟨unswept, sound.firstFilesOnly_of_sorted unswept ?_⟩
    have unsorted : Ledger.byFile.toSorted history.placed = history.placed :=
      eq_of_perm_of_map perm (same.trans unswept.symm) (same ▸ distinct)
    rw [← unsorted]
    exact Ledger.byFile.toSorted_sorted history.placed

/-- A query for everything answers with what was appended, in order, where no day has more rows
than a file is for and nothing was swept. It is so only there, where the rows can be told apart. -/
theorem query_eq_appended {events : List (LedgerEvent Row)}
    (run : Run (LedgerHistory.step format base config) ({} : LedgerHistory Row Line) events history)
    (unrotated : .rotate ∉ events) (now : ℕ) :
    (history.Unswept ∧ history.EachDayFits config →
        (history.ledger.query format base {} now).2 = history.appended) ∧
      (history.appended.Nodup →
        ((history.ledger.query format base {} now).2 = history.appended ↔
          history.Unswept ∧ history.EachDayFits config)) := by
  have inOrder := (sound_of_run run).query_eq_appended_iff base now
  have counted := fun unswept => counts_of_run run unrotated unswept
  have reads : history.Unswept ∧ history.EachDayFits config →
      (history.ledger.query format base {} now).2 = history.appended :=
    fun ⟨unswept, fits⟩ => inOrder.1 ⟨unswept, (counted unswept).fits.mpr fits⟩
  refine ⟨reads, fun distinct => ⟨fun same => ?_, reads⟩⟩
  obtain ⟨unswept, firstOnly⟩ := inOrder.2 distinct same
  exact ⟨unswept, (counted unswept).fits.mp firstOnly⟩

/-! ### Two rows of a day -/

/-- Rows that are texts and have no ids. -/
def textBase : BaseLedgerEntry String where
  atTime _ := 0
  correlationId _ := none
  sessionId _ := none

/-- Rows that are written as they are. -/
def textFormat : RowFormat String String where
  stringify row := row
  safeParse line := some line
  safeParse_stringify _ := rfl

def newYear : CalendarDay := ⟨2026, 1, 1, by decide, by decide, by decide⟩

def twoAppends : List (LedgerEvent String) :=
  [.append "first" newYear 0, .append "second" newYear 0]

/-- The ledger after two rows of a day. -/
def twoRows (config : LedgerConfig) : LedgerHistory String String :=
  (execute (step textFormat textBase config) {} twoAppends).getD {}

theorem query_eq_appended_oneFile :
    ((twoRows {}).ledger.query textFormat textBase {} 0).2 = ["first", "second"] := by
  have run : Run (LedgerHistory.step textFormat textBase {}) {} twoAppends (twoRows {}) :=
    run_of_execute rfl
  refine (query_eq_appended run (by simp [twoAppends]) 0).1 ⟨rfl, fun day => ?_⟩
  exact (List.length_filter_le _ _).trans (by decide +kernel)

/-- The second row of a day is read before the first one where each has its file. -/
theorem second_row_first : ¬ ∀ (config : LedgerConfig) (events : List (LedgerEvent String))
    (history : LedgerHistory String String) (now : ℕ), 1 ≤ config.maxEntriesPerFile →
      Run (step textFormat textBase config) {} events history →
        (history.ledger.query textFormat textBase {} now).2 = history.appended := by
  intro always
  have same := always { maxEntriesPerFile := 1 } twoAppends (twoRows { maxEntriesPerFile := 1 }) 0
    le_rfl (run_of_execute rfl)
  exact absurd same (by decide +kernel)

end LedgerHistory

end Senars.Storage
