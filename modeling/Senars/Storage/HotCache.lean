/-
This file is the hot cache of a ledger against its files. A query with a limit is answered
from the cache where it has enough rows, beginning with the oldest one it holds.

So all queries are answered as from the files exactly where the rows that live in the
cache are the first ones the files hold.
-/

import Senars.Storage.AppendOrder

namespace Senars.Storage

open Library

variable {Row Line : Type} {format : RowFormat Row Line} {base : BaseLedgerEntry Row}
  {config : LedgerConfig}

/-! ### The answers -/

/-- The rows of a hot cache that are not expired. -/
def liveRows (cache : List (HotEntry Row)) (now : ℕ) : List Row :=
  (cache.filter (!·.expired now)).map (·.value)

theorem collectHot_eq (accept : Row → Bool) (now : ℕ) (limit : Option ℕ)
    (cache : List (HotEntry Row)) :
    (collectHot accept now limit cache).1 =
      takeFirst ((liveRows cache now).filter accept) limit := by
  induction cache generalizing limit with
  | nil =>
    rw [LedgerHistory.collectHot_nil]
    exact (takeFirst_nil limit).symm
  | cons entry rest ih =>
    by_cases full : limit = some 0
    · subst full
      rfl
    have unfolded : collectHot accept now limit (entry :: rest) =
        if entry.expired now then collectHot accept now limit rest
        else if accept entry.value then
          (entry.value :: (collectHot accept now (limit.map (· - 1)) rest).1,
            entry :: (collectHot accept now (limit.map (· - 1)) rest).2)
        else ((collectHot accept now limit rest).1,
          entry :: (collectHot accept now limit rest).2) := by
      cases limit with
      | none => rfl
      | some count =>
        cases count with
        | zero => exact absurd rfl full
        | succ count => rfl
    rw [unfolded]
    by_cases expired : entry.expired now = true
    · rw [if_pos expired, ih, liveRows, liveRows,
        List.filter_cons_of_neg (by simpa using expired)]
    · rw [if_neg expired, liveRows, List.filter_cons_of_pos (by simpa using expired),
        List.map_cons]
      by_cases accepted : accept entry.value = true
      · rw [if_pos accepted, List.filter_cons_of_pos accepted, takeFirst_cons full]
        exact congrArg (entry.value :: ·) (ih _)
      · rw [if_neg accepted, List.filter_cons_of_neg accepted]
        exact ih limit

namespace Ledger

/-- All the rows of the files. -/
def rowsOnDisk (format : RowFormat Row Line) (base : BaseLedgerEntry Row)
    (ledger : Ledger Row Line) : List Row :=
  (ledger.scanDisk format base {}).getD []

theorem scanDisk_eq (ledger : Ledger Row Line) (filter : LedgerQuery) :
    (ledger.scanDisk format base filter).getD [] =
      takeFirst ((ledger.rowsOnDisk format base).filter (matchesFilter base filter))
        filter.limit := by
  unfold rowsOnDisk scanDisk
  cases ledger.directory with
  | none => exact (takeFirst_nil _).symm
  | some files =>
    show scanFiles _ _ _ = takeFirst ((scanFiles _ none _).filter _) _
    rw [scanFiles_eq, scanFiles_eq]
    show takeFirst (List.filterMap _ _) _ = takeFirst ((List.filterMap _ _).filter _) _
    congr 1
    rw [← List.filterMap_eq_filter, List.filterMap_filterMap]
    refine List.filterMap_congr fun line _ => ?_
    unfold accepts
    cases format.safeParse line with
    | none => rfl
    | some row => rfl

/-- Whatever is asked, what the hot cache answers is what a scan answers. -/
def HotAgrees (format : RowFormat Row Line) (base : BaseLedgerEntry Row)
    (ledger : Ledger Row Line) (now : ℕ) : Prop :=
  ∀ filter rows, ledger.hotAnswer base filter now = some rows →
    (ledger.scanDisk format base filter).getD [] = rows

theorem hotAnswer_eq_some_iff {ledger : Ledger Row Line} {filter} {now : ℕ} {rows : List Row} :
    ledger.hotAnswer base filter now = some rows ↔
      ∃ limit, filter.limit = some limit ∧
        limit ≤ ((liveRows ledger.hotCache now).filter (matchesFilter base filter)).length ∧
        rows = ((liveRows ledger.hotCache now).filter (matchesFilter base filter)).take limit := by
  unfold hotAnswer
  cases filter.limit with
  | none => simp
  | some limit =>
    show (if limit ≤ (collectHot _ now (some limit) _).1.length then _ else none) = _ ↔ _
    rw [collectHot_eq]
    show (if limit ≤ (List.take limit _).length then _ else none) = some rows ↔ _
    rw [List.length_take]
    constructor
    · intro answered
      split at answered
      · rename_i enough
        exact ⟨limit, rfl, by omega, (Option.some.inj answered).symm⟩
      · cases answered
    · rintro ⟨same, isLimit, enough, rfl⟩
      cases isLimit
      rw [if_pos (by omega)]
      rfl

theorem hotAgrees_iff_isPrefix (ledger : Ledger Row Line) (now : ℕ) :
    ledger.HotAgrees format base now ↔
      liveRows ledger.hotCache now <+: ledger.rowsOnDisk format base := by
  constructor
  · intro agrees
    have all := fun rows : List Row => List.filter_eq_self.mpr fun entry (_ : entry ∈ rows) =>
      show matchesFilter base { limit := some (liveRows ledger.hotCache now).length } entry = true
        from rfl
    have answered := agrees { limit := some (liveRows ledger.hotCache now).length }
      (liveRows ledger.hotCache now)
      (hotAnswer_eq_some_iff.mpr ⟨_, rfl, by rw [all], by rw [all, List.take_length]⟩)
    rw [scanDisk_eq, all] at answered
    rw [← answered]
    exact List.take_prefix _ _
  · intro first filter rows answered
    obtain ⟨limit, isLimit, enough, rfl⟩ := hotAnswer_eq_some_iff.mp answered
    rw [scanDisk_eq, isLimit]
    have same := List.prefix_iff_eq_take.mp (first.filter (matchesFilter base filter))
    rw [same, List.take_take, Nat.min_eq_left enough]
    rfl

end Ledger

/-! ### The window of a history -/

namespace LedgerHistory

variable {history : LedgerHistory Row Line}

theorem Sound.rowsOnDisk (sound : Sound format history) :
    history.ledger.rowsOnDisk format base =
      (Ledger.byFile.toSorted history.placed).map Prod.snd := by
  refine (sound.reflects.scanDisk base {}).trans ?_
  rw [List.filter_eq_self.mpr fun entry _ => matchesFilter_all entry]
  rfl

/-- Whatever the history, the hot cache agrees with the files exactly where the rows that live in it
are the first of the rows that were placed, by the names of their files. -/
theorem hotAgrees_iff {events : List (LedgerEvent Row)}
    (run : Run (LedgerHistory.step format base config) ({} : LedgerHistory Row Line) events history)
    (now : ℕ) :
    history.ledger.HotAgrees format base now ↔
      liveRows history.ledger.hotCache now <+:
        (Ledger.byFile.toSorted history.placed).map Prod.snd := by
  rw [Ledger.hotAgrees_iff_isPrefix, (sound_of_run run).rowsOnDisk]

theorem hotAgrees_iff_twoRows : (twoRows {}).ledger.HotAgrees textFormat textBase 0 := by
  have run : Run (LedgerHistory.step textFormat textBase {}) {} twoAppends (twoRows {}) :=
    run_of_execute rfl
  exact (hotAgrees_iff run 0).mpr (by decide +kernel)

variable {next : LedgerHistory Row Line} {now : ℕ}

/-! ### Queries that ask for enough -/

/-- The hot cache holds rows that were appended, in the order they were. -/
def CacheInOrder (history : LedgerHistory Row Line) : Prop :=
  (history.ledger.hotCache.map (·.value)).Sublist history.appended

theorem collectHot_sublist (accept : Row → Bool) (now : ℕ) (limit : Option ℕ)
    (cache : List (HotEntry Row)) : (collectHot accept now limit cache).2.Sublist cache := by
  fun_induction collectHot accept now limit cache with
  | case1 => exact .refl _
  | case2 => exact .refl _
  | case3 limit entry rest _ _ ih => exact ih.cons entry
  | case4 limit entry rest _ _ _ rows kept collected ih =>
    rw [collected] at ih
    exact ih.cons_cons entry
  | case5 limit entry rest _ _ _ rows kept collected ih =>
    rw [collected] at ih
    exact ih.cons_cons entry

theorem query_hotCache_sublist (ledger : Ledger Row Line) (filter : LedgerQuery) (now : ℕ) :
    (ledger.query format base filter now).1.hotCache.Sublist ledger.hotCache := by
  have evicts := collectHot_sublist (matchesFilter base filter) now filter.limit ledger.hotCache
  unfold Ledger.query
  split
  · exact evicts
  · split
    · split
      · exact evicts
      · exact .refl _
    · exact evicts

theorem cacheInOrder_step {event} (inOrder : history.CacheInOrder)
    (taken : step format base config history event = some next) : next.CacheInOrder := by
  cases event with
  | append row today now =>
    unfold LedgerHistory.step at taken
    dsimp only at taken
    split at taken
    · cases taken
      show ((Ledger.append format config history.ledger row today now).hotCache.map _).Sublist
        (history.appended ++ [row])
      unfold Ledger.append
      rw [(Ledger.writeToFile_spec config _ today (format.stringify row)).hotCache]
      split
      · show ((pushCapped history.ledger.hotCache _ _).map _).Sublist _
        rw [map_pushCapped]
        exact (pushCapped_sublist _ _ _).trans (inOrder.append (.refl _))
      · exact inOrder.trans (List.sublist_append_left _ _)
    · cases taken
  | query filter now =>
    cases taken
    exact ((query_hotCache_sublist history.ledger filter now).map _).trans inOrder
  | rotate =>
    cases taken
    exact inOrder
  | pruneOldFiles cutoff =>
    cases taken
    unfold after Ledger.pruneOldFiles
    dsimp only
    split <;> exact inOrder
  | invalidateHotCache =>
    cases taken
    exact List.nil_sublist _

theorem appended_of_append {row today}
    (taken : step format base config history (.append row today now) = some next) :
    next.appended = history.appended ++ [row] := by
  unfold LedgerHistory.step at taken
  dsimp only at taken
  split at taken
  · cases taken
    rfl
  · cases taken

/-- The files hold all rows and are read in the order the rows were appended. -/
def InOrder (history : LedgerHistory Row Line) : Prop :=
  history.Unswept ∧ history.FirstFilesOnly

theorem Sound.sorted_eq_appended (sound : Sound format history) (inOrder : history.InOrder) :
    (Ledger.byFile.toSorted history.placed).map Prod.snd = history.appended := by
  rw [(sound.sorted_of_firstFilesOnly inOrder.2).toSorted_eq]
  exact inOrder.1

theorem Sound.inOrder_of_step (sound : Sound format history) {event}
    (taken : LedgerHistory.step format base config history event = some next)
    (inOrder : next.InOrder) : history.InOrder := by
  cases event with
  | append row today now =>
    unfold LedgerHistory.step at taken
    dsimp only at taken
    split at taken
    · cases taken
      obtain ⟨unswept, firstOnly⟩ := inOrder
      have same : (history.placed ++ [_]).map Prod.snd = history.appended ++ [row] := unswept
      rw [List.map_append] at same
      exact ⟨List.append_cancel_right same, (firstFilesOnly_append.mp firstOnly).1⟩
    · cases taken
  | query filter now =>
    cases taken
    exact inOrder
  | rotate =>
    cases taken
    exact inOrder
  | pruneOldFiles cutoff =>
    cases taken
    unfold after InOrder Unswept FirstFilesOnly at inOrder
    dsimp only at inOrder
    split at inOrder
    · exact inOrder
    · rwa [sound.swept_nothing cutoff inOrder.1] at inOrder
  | invalidateHotCache =>
    cases taken
    exact inOrder

theorem Sound.query_of_enough (sound : Sound format history) (cached : history.CacheInOrder)
    (inOrder : history.InOrder) {filter} (enough : ∀ limit, filter.limit = some limit →
      (history.appended.filter (matchesFilter base filter)).length ≤ limit) (now : ℕ) :
    (history.ledger.query format base filter now).2 =
      history.appended.filter (matchesFilter base filter) := by
  have all : takeFirst (history.appended.filter (matchesFilter base filter)) filter.limit =
      history.appended.filter (matchesFilter base filter) := by
    cases limited : filter.limit with
    | none => rfl
    | some limit => exact List.take_of_length_le (enough limit limited)
  rw [sound.query_eq]
  cases hot : history.ledger.hotAnswer base filter now with
  | some rows =>
    obtain ⟨limit, limited, reached, rfl⟩ := Ledger.hotAnswer_eq_some_iff.mp hot
    have inside :
        ((liveRows history.ledger.hotCache now).filter (matchesFilter base filter)).Sublist
          (history.appended.filter (matchesFilter base filter)) :=
      ((List.filter_sublist.map _).trans cached).filter _
    have same := inside.eq_of_length_le ((enough limit limited).trans reached)
    rw [same]
    exact List.take_of_length_le (enough limit limited)
  | none =>
    have scanned := sound.reflects.scanDisk base filter
    rw [sound.sorted_eq_appended inOrder, all] at scanned
    exact scanned

/-- A cache of one row answers with the newest row, and the files with the oldest one. -/
theorem newest_row_answered : ¬ ∀ (config : LedgerConfig) (events : List (LedgerEvent String))
    (history : LedgerHistory String String) (now : ℕ),
      Run (LedgerHistory.step textFormat textBase config) {} events history →
        history.ledger.HotAgrees textFormat textBase now := by
  intro always
  have agrees := always { hotCacheMaxSize := 1 } twoAppends (twoRows { hotCacheMaxSize := 1 }) 0
    (run_of_execute rfl)
  exact absurd (agrees { limit := some 1 } ["second"] (by decide +kernel)) (by decide +kernel)

end LedgerHistory

end Senars.Storage
