/-
This file is the compaction of a ledger: the last row of every key is kept, by the order
in which the rows are read back.

The row that is kept is the one that was appended last exactly where no other row of its
key is in a file that is read after its own.
-/

import Senars.Library.Objects
import Senars.Storage.AppendOrder

namespace Senars.Storage

open Library

variable {Row Line : Type} {format : RowFormat Row Line} {base : BaseLedgerEntry Row}
  {config : LedgerConfig}

/-! ### The last row of every key -/

namespace Ledger

variable {rows : List Row} {keySelector : Row → String}

theorem lastByKey_append (rows : List Row) (row : Row) (keySelector : Row → String) :
    lastByKey (rows ++ [row]) keySelector =
      (lastByKey rows keySelector).set (keySelector row) row := by
  unfold lastByKey
  rw [List.map_append, OrderedMap.setAll_append]
  rfl

theorem get_lastByKey (rows : List Row) (keySelector : Row → String) (key : String) :
    (lastByKey rows keySelector).get key =
      (rows.filter (keySelector · = key)).getLast? := by
  induction rows using List.reverseRecOn with
  | nil => rfl
  | append_singleton rows row ih =>
    rw [lastByKey_append, OrderedMap.get_set, List.filter_append]
    by_cases same : key = keySelector row
    · rw [if_pos same, List.filter_cons_of_pos (by simpa using same.symm), List.filter_nil,
        List.getLast?_concat]
    · rw [if_neg same, List.filter_cons_of_neg (by simpa using Ne.symm same), List.filter_nil,
        List.append_nil]
      exact ih

theorem keySelector_of_mem_lastByKey {entry}
    (isEntry : entry ∈ (lastByKey rows keySelector).entries) : keySelector entry.2 = entry.1 := by
  have found := ((lastByKey rows keySelector).get_eq_some_iff entry.1 entry.2).mpr isEntry
  rw [get_lastByKey] at found
  exact of_decide_eq_true (List.mem_filter.mp (List.mem_of_getLast? found)).2

theorem filter_lastByKey (rows : List Row) (keySelector : Row → String) (key : String) :
    ((lastByKey rows keySelector).entries.map Prod.snd).filter (keySelector · = key) =
      (rows.filter (keySelector · = key)).getLast?.toList := by
  rw [List.filter_map, ← get_lastByKey]
  have byKey : (lastByKey rows keySelector).entries.filter
      ((fun row => decide (keySelector row = key)) ∘ Prod.snd) =
        (lastByKey rows keySelector).entries.filter (·.1 = key) := by
    refine List.filter_congr fun entry isEntry => ?_
    show decide (keySelector entry.2 = key) = decide (entry.1 = key)
    rw [keySelector_of_mem_lastByKey isEntry]
  rw [byKey, OrderedMap.filter_entries, List.map_map]
  exact List.map_id _

theorem size_lastByKey_le (rows : List Row) (keySelector : Row → String) :
    (lastByKey rows keySelector).size ≤ rows.length := by
  induction rows using List.reverseRecOn with
  | nil => exact le_rfl
  | append_singleton rows row ih =>
    rw [lastByKey_append, List.length_append]
    exact (OrderedMap.size_set_le _ _ _).trans (Nat.succ_le_succ ih)

theorem reflects_compacted (ledger : Ledger Row Line) (kept : List Row) (date : CalendarDay)
    (now : ℕ) : Reflects format (ledger.compacted format config kept date now)
      (kept.map ((⟨date, 0⟩ : LedgerFile), ·)) := by
  intro file
  refine (lines_writeFile _ file _).trans ?_
  rw [List.filter_map, List.map_map]
  by_cases same : file = ⟨date, 0⟩
  · rw [if_pos same]
    exact congrArg (List.map _) (List.filter_eq_self.mpr fun _ _ => by simp [same]).symm
  · rw [if_neg same]
    refine (List.map_eq_nil_iff.mpr (List.filter_eq_nil_iff.mpr fun _ _ here => ?_)).symm
    exact same (of_decide_eq_true here).symm

theorem scanDisk_compacted (ledger : Ledger Row Line) (kept : List Row) (date : CalendarDay)
    (now : ℕ) :
    ((ledger.compacted format config kept date now).scanDisk format base {}).getD [] = kept := by
  have sorted : byFile.Sorted (kept.map ((⟨date, 0⟩ : LedgerFile), ·)) := by
    refine List.pairwise_map.mpr (List.pairwise_of_forall fun _ _ => ?_)
    rw [byFile_le]
    exact LedgerFile.byName.refl _
  rw [(reflects_compacted ledger kept date now).scanDisk base {}, sorted.toSorted_eq,
    List.map_map, List.filter_eq_self.mpr fun entry _ => LedgerHistory.matchesFilter_all entry]
  exact List.map_id _

/-! ### Compacting again -/

theorem lastByKey_lastByKey (rows : List Row) (keySelector : Row → String) :
    (lastByKey ((lastByKey rows keySelector).entries.map Prod.snd) keySelector).entries =
      (lastByKey rows keySelector).entries := by
  have keyed : ((lastByKey rows keySelector).entries.map Prod.snd).map
      (fun row => (keySelector row, row)) = (lastByKey rows keySelector).entries := by
    rw [List.map_map]
    refine (List.map_congr_left fun entry isEntry => ?_).trans (List.map_id _)
    exact Prod.ext (keySelector_of_mem_lastByKey isEntry) rfl
  rw [lastByKey, keyed]
  exact OrderedMap.entries_ofList (lastByKey rows keySelector).nodup

theorem query_compacted (ledger : Ledger Row Line) (kept : List Row) (date : CalendarDay)
    (now later : ℕ) :
    ((ledger.compacted format config kept date now).query format base {} later).2 = kept :=
  @scanDisk_compacted Row Line format base config ledger kept date now

end Ledger

/-! ### What compaction leaves -/

namespace LedgerHistory

variable {history : LedgerHistory Row Line}

/-- Compaction leaves one row of every key, the one that was appended last, and says how many rows
there were. -/
structure Compacts (format : RowFormat Row Line) (base : BaseLedgerEntry Row)
    (config : LedgerConfig) (history : LedgerHistory Row Line) (keySelector : Row → String)
    (date : CalendarDay) (now : ℕ) : Prop where
  last : ∀ key, (((history.ledger.compact format base config keySelector date now).1.scanDisk format
      base {}).getD []).filter (keySelector · = key) =
    (history.appended.filter (keySelector · = key)).getLast?.toList
  counts : (history.ledger.compact format base config keySelector date now).2.kept +
      (history.ledger.compact format base config keySelector date now).2.dropped =
    history.appended.length

/-- No row of a key is in a file that is read after that of the key's last row. -/
def LastListed (history : LedgerHistory Row Line) (keySelector : Row → String) : Prop :=
  ∀ key last, (history.placed.filter (keySelector ·.2 = key)).getLast? = some last →
    ∀ row ∈ history.placed, keySelector row.2 = key →
      LedgerFile.byName.le row.1 last.1 = true

theorem Sound.lastListed (sound : Sound format history) (firstOnly : history.FirstFilesOnly)
    (keySelector : Row → String) : history.LastListed keySelector := by
  intro key last isLast row isPlaced isKey
  have sorted := (sound.sorted_of_firstFilesOnly firstOnly).sublist
    (List.filter_sublist : (history.placed.filter (keySelector ·.2 = key)).Sublist _)
  have among : row ∈ history.placed.filter (keySelector ·.2 = key) :=
    List.mem_filter.mpr ⟨isPlaced, decide_eq_true isKey⟩
  rw [← sorted.toSorted_eq] at isLast
  show Ledger.byFile.le row last = true
  exact Comparison.le_of_getLast?_toSorted isLast among

theorem Sound.filter_compact (sound : Sound format history) (keySelector : Row → String)
    (date : CalendarDay) (now : ℕ) (key : String) :
    (((history.ledger.compact format base config keySelector date now).1.scanDisk format
        base {}).getD []).filter (keySelector · = key) =
      ((Ledger.byFile.toSorted (history.placed.filter (keySelector ·.2 = key))).getLast?.map
        Prod.snd).toList := by
  unfold Ledger.compact
  rw [Ledger.scanDisk_compacted, Ledger.filter_lastByKey, sound.query_all, List.filter_map,
    List.getLast?_map, Ledger.byFile.toSorted_filter]
  rfl

theorem Sound.counts_compact (sound : Sound format history) (keySelector : Row → String)
    (date : CalendarDay) (now : ℕ) :
    (history.ledger.compact format base config keySelector date now).2.kept +
        (history.ledger.compact format base config keySelector date now).2.dropped =
      history.placed.length := by
  unfold Ledger.compact
  rw [Nat.add_sub_cancel' (Ledger.size_lastByKey_le _ keySelector), sound.query_all,
    List.length_map, Comparison.length_toSorted]

/-- Compaction leaves of every key the row that was appended last where no row of the key is read
after it and nothing was swept. It does so only there, where the rows can be told apart. -/
theorem compacts_iff {events : List (LedgerEvent Row)}
    (run : Run (LedgerHistory.step format base config) ({} : LedgerHistory Row Line) events history)
    (keySelector : Row → String) (date : CalendarDay) (now : ℕ) :
    (history.Unswept ∧ history.LastListed keySelector →
        Compacts format base config history keySelector date now) ∧
      (history.appended.Nodup →
        (Compacts format base config history keySelector date now ↔
          history.Unswept ∧ history.LastListed keySelector)) := by
  have sound := sound_of_run run
  -- the rows of a key in the order they were appended
  have appendedOf : history.Unswept → ∀ key,
      (history.appended.filter (keySelector · = key)).getLast? =
        (history.placed.filter (keySelector ·.2 = key)).getLast?.map Prod.snd := by
    intro unswept key
    rw [← unswept, List.filter_map, List.getLast?_map]
    rfl
  have compacts : history.Unswept ∧ history.LastListed keySelector →
      Compacts format base config history keySelector date now := by
    rintro ⟨unswept, lastListed⟩
    refine ⟨fun key => ?_, ?_⟩
    · rw [sound.filter_compact, appendedOf unswept]
      cases isLast : (history.placed.filter (keySelector ·.2 = key)).getLast? with
      | none =>
        rw [List.getLast?_eq_none_iff.mp isLast]
        rfl
      | some last =>
        rw [Comparison.getLast?_toSorted isLast fun row among => ?_]
        obtain ⟨isPlaced, isKey⟩ := List.mem_filter.mp among
        exact lastListed key last isLast row isPlaced (of_decide_eq_true isKey)
    · rw [sound.counts_compact, ← unswept, List.length_map]
  refine ⟨compacts, fun distinct => ⟨fun right => ?_, compacts⟩⟩
  have unswept : history.Unswept := by
    refine sound.within.eq_of_length ?_
    rw [List.length_map]
    exact (sound.counts_compact keySelector date now).symm.trans right.counts
  refine ⟨unswept, fun key last isLast row isPlaced isKey => ?_⟩
  have same := right.last key
  rw [sound.filter_compact, appendedOf unswept, isLast] at same
  have among : row ∈ history.placed.filter (keySelector ·.2 = key) :=
    List.mem_filter.mpr ⟨isPlaced, decide_eq_true isKey⟩
  cases isRead : (Ledger.byFile.toSorted (history.placed.filter (keySelector ·.2 = key))).getLast?
    with
  | none =>
    rw [isRead] at same
    cases same
  | some read =>
    rw [isRead] at same
    have readPlaced : read ∈ history.placed :=
      List.mem_of_mem_filter (Comparison.mem_toSorted.mp (List.mem_of_getLast? isRead))
    have lastPlaced : last ∈ history.placed := List.mem_of_mem_filter (List.mem_of_getLast? isLast)
    obtain rfl : read = last := List.inj_on_of_nodup_map (unswept ▸ distinct) readPlaced lastPlaced
      (List.singleton_inj.mp same)
    show Ledger.byFile.le row read = true
    exact Comparison.le_of_getLast?_toSorted isRead among

/-! ### Two rows of a key -/

theorem compacts_iff_oneFile :
    Compacts textFormat textBase {} (twoRows {}) (fun _ => "key") newYear 0 := by
  have run : Run (LedgerHistory.step textFormat textBase {}) {} twoAppends (twoRows {}) :=
    run_of_execute rfl
  exact (compacts_iff run _ newYear 0).1
    ⟨rfl, (sound_of_run run).lastListed (by decide +kernel) _⟩

/-- Where each of two rows of a key has its file, the first one is kept. -/
theorem first_row_kept : ¬ ∀ (config : LedgerConfig) (events : List (LedgerEvent String))
    (history : LedgerHistory String String) (keySelector : String → String) (date : CalendarDay)
    (now : ℕ), 1 ≤ config.maxEntriesPerFile →
      Run (LedgerHistory.step textFormat textBase config) {} events history →
        Compacts textFormat textBase config history keySelector date now := by
  intro always
  have compacts := always { maxEntriesPerFile := 1 } twoAppends (twoRows { maxEntriesPerFile := 1 })
    (fun _ => "key") newYear 0 le_rfl (run_of_execute rfl)
  exact absurd (compacts.last "key") (by decide +kernel)

end LedgerHistory

end Senars.Storage
