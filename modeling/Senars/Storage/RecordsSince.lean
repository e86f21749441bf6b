/-
This file is about a reader that asks a ledger what is new. The ledger mirrors its rows in memory
under ascending numbers, and the reader passes the number it was told to ask from.

Compaction mirrors the rows it keeps again, under new numbers, so the next call gives all of them
to the reader and nothing else. A row is given twice where it was kept after the reader had it, and
not at all where it was appended once its file had been read.
-/

import Senars.Storage.Interleaving

namespace Senars.Storage

open Library Ledger

variable {Row Line : Type}

/-! ### The mirror -/

/-- Rows under ascending numbers. -/
def numbered : ℕ → List Row → List (ℕ × Row)
  | _, [] => []
  | seq, row :: rest => (seq, row) :: numbered (seq + 1) rest

/-- The mirrored rows from a number on, and the number to ask from next time. -/
def Ledger.recordsSince (ledger : Ledger Row Line) (mirror : List (ℕ × Row)) (seq : ℕ) :
    List Row × ℕ :=
  ((mirror.filter (seq ≤ ·.1)).map Prod.snd, ledger.hotSeq)

/-- The rows of whose key no other comes later. -/
def lastRows (keySelector : Row → String) : List Row → List Row
  | [] => []
  | row :: rest =>
    if rest.any (keySelector · = keySelector row) then lastRows keySelector rest
    else row :: lastRows keySelector rest

/-- A ledger with a mirror that is large enough for all rows, and its reader: the number the reader
asks from, the rows it was given, and the rows appended since then that no compaction has found
superseded. -/
structure MirroredLedger (Row Line : Type) where
  compacting : CompactingLedger Row Line
  /-- By what the compaction that began last tells rows apart. -/
  keySelector : Row → String
  mirror : List (ℕ × Row) := []
  cursor : ℕ := 0
  delivered : List Row := []
  pending : List Row := []

inductive ReaderEvent (Row : Type) where
  | compact (keySelector : Row → String)
  | ledger (event : CompactingEvent Row)
  | recordsSince

namespace MirroredLedger

/-- What a call of the reader would give it now. -/
def entries (state : MirroredLedger Row Line) : List Row :=
  (state.compacting.ledger.recordsSince state.mirror state.cursor).1

/-- What a step of the ledger does to the mirror: a row is mirrored as it is appended, and what
compaction kept is mirrored in the place of everything when it ends. -/
def after (state : MirroredLedger Row Line) (event : CompactingEvent Row)
    (next : CompactingLedger Row Line) : MirroredLedger Row Line :=
  match event, state.compacting.phase with
  | .append row _ _, _ =>
    { state with
      compacting := next
      mirror := state.mirror ++ [(state.compacting.ledger.hotSeq, row)]
      pending := state.pending ++ [row] }
  | .finish _, .written kept _ =>
    { state with
      compacting :=
        { next with
          ledger := { next.ledger with hotSeq := next.ledger.hotSeq + kept.length } }
      mirror := numbered next.ledger.hotSeq kept
      pending := lastRows state.keySelector state.pending }
  | _, _ => { state with compacting := next }

end MirroredLedger

/-- One step of the ledger, or a call of the reader. -/
def mirroredStep (format : RowFormat Row Line) (base : BaseLedgerEntry Row)
    (config : LedgerConfig) : Machine (MirroredLedger Row Line) (ReaderEvent Row)
  | state, .compact keySelector =>
    (compactingStep format base config keySelector state.compacting .listFiles).map fun next =>
      { state with compacting := next, keySelector := keySelector }
  | _, .ledger .listFiles => none
  | state, .ledger event =>
    (compactingStep format base config state.keySelector state.compacting event).map
      (state.after event)
  | state, .recordsSince =>
    let read := state.compacting.ledger.recordsSince state.mirror state.cursor
    some
      { state with
        cursor := read.2
        delivered := state.delivered ++ read.1
        pending := [] }

/-! ### What the steps of the ledger do -/

/-- The rows that compaction keeps. -/
def CompactPhase.kept : CompactPhase Row → List Row
  | .removed kept => kept
  | .made kept => kept
  | .writing kept _ => kept
  | .written kept _ => kept
  | _ => []

section

variable {format : RowFormat Row Line} {base : BaseLedgerEntry Row} {config : LedgerConfig}
  {keySelector : Row → String}

theorem hotSeq_append (ledger : Ledger Row Line) (row : Row) (today : CalendarDay) (now : ℕ) :
    (ledger.append format config row today now).hotSeq = ledger.hotSeq + 1 := by
  unfold Ledger.append
  rw [(writeToFile_spec config _ today (format.stringify row)).hotSeq]
  split <;> rfl

theorem hotSeq_resetTo (ledger : Ledger Row Line) (kept : List Row) (date : CalendarDay)
    (now : ℕ) : (ledger.resetTo config kept date now).hotSeq = ledger.hotSeq + kept.length :=
  foldl_counts (fun _ _ => rfl) kept ([], ledger.hotSeq)

theorem nodup_lastByKey (rows : List Row) (keySelector : Row → String) :
    ((lastByKey rows keySelector).entries.map Prod.snd).Nodup := by
  refine List.Nodup.of_map keySelector ?_
  have keys : ((lastByKey rows keySelector).entries.map Prod.snd).map keySelector =
      (lastByKey rows keySelector).entries.map Prod.fst := by
    rw [List.map_map]
    exact List.map_congr_left fun entry isEntry => keySelector_of_mem_lastByKey isEntry
  rw [keys]
  exact (lastByKey rows keySelector).nodup

theorem compactingStep_cases {state next event}
    (taken : compactingStep format base config keySelector state event = some next) :
    (∃ row today now, event = .append row today now ∧ next.phase = state.phase ∧
        next.ledger.hotSeq = state.ledger.hotSeq + 1 ∧ next.appended = state.appended ++ [row]) ∨
      (∃ now kept date, event = .finish now ∧ state.phase = .written kept date ∧
        next.phase = .idle ∧ next.ledger.hotSeq = state.ledger.hotSeq + kept.length ∧
          next.appended = state.appended) ∨
      ((∀ row today now, event ≠ .append row today now) ∧ (∀ now, event ≠ .finish now) ∧
        next.ledger.hotSeq = state.ledger.hotSeq ∧ next.appended = state.appended ∧
          (state.phase.kept.Nodup → next.phase.kept.Nodup)) := by
  unfold compactingStep at taken
  split at taken
  all_goals cases taken
  · exact .inl ⟨_, _, _, rfl, rfl, hotSeq_append _ _ _ _, rfl⟩
  · refine .inr (.inr ⟨nofun, nofun, ?_, rfl, id⟩)
    unfold Ledger.pruneOldFiles
    split <;> rfl
  · refine .inr (.inr ⟨nofun, nofun, rfl, rfl, fun _ => ?_⟩)
    unfold Ledger.listPhase
    split <;> exact List.nodup_nil
  · exact .inr (.inr ⟨nofun, nofun, rfl, rfl, fun _ => List.nodup_nil⟩)
  · exact .inr (.inr ⟨nofun, nofun, rfl, rfl, fun _ => List.nodup_nil⟩)
  · exact .inr (.inr ⟨nofun, nofun, rfl, rfl, fun _ => nodup_lastByKey _ _⟩)
  · exact .inr (.inr ⟨nofun, nofun, rfl, rfl, id⟩)
  · exact .inr (.inr ⟨nofun, nofun, rfl, rfl, id⟩)
  · exact .inr (.inr ⟨nofun, nofun, rfl, rfl, id⟩)
  · exact .inr (.inl ⟨_, _, _, rfl, rfl, rfl, hotSeq_resetTo _ _ _ _, rfl⟩)

end

/-! ### What the reader is given -/

theorem mem_numbered {seq} {rows : List Row} {entry} (member : entry ∈ numbered seq rows) :
    seq ≤ entry.1 ∧ entry.1 < seq + rows.length := by
  induction rows generalizing seq with
  | nil => cases member
  | cons row rest ih =>
    rw [List.length_cons]
    rcases List.mem_cons.mp member with rfl | later
    · dsimp only
      omega
    · have bounds := ih later
      omega

theorem map_numbered (seq : ℕ) (rows : List Row) : (numbered seq rows).map Prod.snd = rows := by
  induction rows generalizing seq with
  | nil => rfl
  | cons row rest ih =>
    rw [numbered, List.map_cons, ih]

namespace MirroredLedger

/-- The mirrored rows have numbers that were used, and the reader asks from one. -/
structure Numbered (state : MirroredLedger Row Line) : Prop where
  below : ∀ entry ∈ state.mirror, entry.1 < state.compacting.ledger.hotSeq
  cursor : state.cursor ≤ state.compacting.ledger.hotSeq
  kept : state.compacting.phase.kept.Nodup

section

variable {state next : MirroredLedger Row Line}

/-- The four things that happen to the reader. -/
inductive Moves (state : MirroredLedger Row Line) :
    ReaderEvent Row → MirroredLedger Row Line → Prop
  | append (row : Row) (today : CalendarDay) (now : ℕ) {after : CompactingLedger Row Line}
      (phase : after.phase = state.compacting.phase)
      (hotSeq : after.ledger.hotSeq = state.compacting.ledger.hotSeq + 1)
      (appended : after.appended = state.compacting.appended ++ [row]) :
      Moves state (.ledger (.append row today now))
        { state with
          compacting := after
          mirror := state.mirror ++ [(state.compacting.ledger.hotSeq, row)]
          pending := state.pending ++ [row] }
  | finish (now : ℕ) {seq : ℕ} {after : CompactingLedger Row Line}
      (phase : after.phase.kept = []) (later : state.compacting.ledger.hotSeq ≤ seq)
      (hotSeq : after.ledger.hotSeq = seq + state.compacting.phase.kept.length)
      (appended : after.appended = state.compacting.appended) :
      Moves state (.ledger (.finish now))
        { state with
          compacting := after
          mirror := numbered seq state.compacting.phase.kept
          pending := lastRows state.keySelector state.pending }
  | recordsSince : Moves state .recordsSince
      { state with
        cursor := state.compacting.ledger.hotSeq
        delivered := state.delivered ++ state.entries
        pending := [] }
  | other {event : ReaderEvent Row} (keySelector : Row → String)
      {after : CompactingLedger Row Line} (notFinish : ∀ now, event ≠ .ledger (.finish now))
      (hotSeq : after.ledger.hotSeq = state.compacting.ledger.hotSeq)
      (appended : after.appended = state.compacting.appended)
      (kept : state.compacting.phase.kept.Nodup → after.phase.kept.Nodup) :
      Moves state event { state with compacting := after, keySelector := keySelector }

theorem moves_of_mirroredStep {format base config event}
    (taken : mirroredStep format base config state event = some next) : Moves state event next := by
  cases event with
  | compact keySelector =>
    obtain ⟨after, lists, rfl⟩ := Option.map_eq_some_iff.mp taken
    rcases compactingStep_cases lists with ⟨_, _, _, ⟨⟩, _⟩ | ⟨_, _, _, ⟨⟩, _⟩ | other
    obtain ⟨_, _, hotSeq, appended, kept⟩ := other
    exact .other keySelector nofun hotSeq appended kept
  | recordsSince =>
    cases taken
    exact .recordsSince
  | ledger event =>
    have steps : ∃ after, compactingStep format base config state.keySelector state.compacting
        event = some after ∧ state.after event after = next := by
      cases event with
      | listFiles => cases taken
      | _ => exact Option.map_eq_some_iff.mp taken
    obtain ⟨after, step, rfl⟩ := steps
    rcases compactingStep_cases step with appends | finishes | other
    · obtain ⟨row, today, now, rfl, phase, hotSeq, appended⟩ := appends
      exact .append row today now phase hotSeq appended
    · obtain ⟨now, kept, date, rfl, written, idle, hotSeq, appended⟩ := finishes
      have isKept : state.compacting.phase.kept = kept := by
        rw [written]
        rfl
      have unkept : after.phase.kept = [] := by
        rw [idle]
        rfl
      unfold MirroredLedger.after
      rw [written]
      rw [← isKept] at hotSeq ⊢
      exact .finish now unkept (hotSeq ▸ Nat.le_add_right _ _) rfl appended
    · obtain ⟨notAppend, notFinish, hotSeq, appended, kept⟩ := other
      have silent : state.after event after = { state with compacting := after } := by
        unfold MirroredLedger.after
        split
        · exact absurd rfl (notAppend _ _ _)
        · exact absurd rfl (notFinish _)
        · rfl
      rw [silent]
      exact .other state.keySelector (fun now same => notFinish now (ReaderEvent.ledger.inj same))
        hotSeq appended kept

theorem Numbered.moves {event} (isNumbered : Numbered state) (moves : Moves state event next) :
    Numbered next := by
  obtain ⟨below, cursor, kept⟩ := isNumbered
  cases moves with
  | append row today now phase hotSeq appended =>
    refine ⟨fun entry member => ?_, ?_, ?_⟩
    · show entry.1 < _
      rw [hotSeq]
      rcases List.mem_append.mp member with before | now
      · exact Nat.lt_succ_of_lt (below entry before)
      · rw [List.mem_singleton.mp now]
        exact Nat.lt_succ_self _
    · exact hotSeq ▸ Nat.le_succ_of_le cursor
    · exact phase ▸ kept
  | finish now phase later hotSeq appended =>
    refine ⟨fun entry member => ?_, ?_, ?_⟩
    · exact hotSeq ▸ (mem_numbered member).2
    · exact hotSeq ▸ (cursor.trans later).trans (Nat.le_add_right _ _)
    · exact phase ▸ List.nodup_nil
  | recordsSince => exact ⟨below, le_rfl, kept⟩
  | other keySelector notFinish hotSeq appended keeps =>
    exact ⟨hotSeq ▸ below, hotSeq ▸ cursor, keeps kept⟩

end

/-! ### A call of the reader -/

variable {seq : ℕ}

theorem entries_append (state : MirroredLedger Row Line) (later : state.cursor ≤ seq) (row : Row) :
    ((state.mirror ++ [(seq, row)]).filter (state.cursor ≤ ·.1)).map Prod.snd =
      state.entries ++ [row] := by
  have own : [(seq, row)].filter (state.cursor ≤ ·.1) = [(seq, row)] :=
    List.filter_cons_of_pos (decide_eq_true later)
  rw [List.filter_append, own, List.map_append]
  rfl

theorem entries_numbered {cursor} (later : cursor ≤ seq) (kept : List Row) :
    ((numbered seq kept).filter (cursor ≤ ·.1)).map Prod.snd = kept := by
  have all : (numbered seq kept).filter (cursor ≤ ·.1) = numbered seq kept :=
    List.filter_eq_self.mpr fun entry member =>
      decide_eq_true (later.trans (mem_numbered member).1)
  rw [all, map_numbered]

theorem entries_read {mirror : List (ℕ × Row)} (below : ∀ entry ∈ mirror, entry.1 < seq) :
    (mirror.filter (seq ≤ ·.1)).map Prod.snd = [] := by
  have none : mirror.filter (seq ≤ ·.1) = [] :=
    List.filter_eq_nil_iff.mpr fun entry member reads =>
      not_le.mpr (below entry member) (of_decide_eq_true reads)
  rw [none, List.map_nil]

variable [DecidableEq Row]

/-- With a call of the reader now, no row has been given to it more often than it was appended, and
it has been given every row that was appended since its last call and is not superseded. -/
def DeliversOnce (state : MirroredLedger Row Line) : Prop :=
  (∀ row, (state.delivered ++ state.entries).count row ≤ state.compacting.appended.count row) ∧
    ∀ row ∈ state.pending, row ∈ state.entries

/-- A compaction that ends keeps no row that the reader was given, and keeps all rows that were
appended since the reader's last call and are the last of their keys. -/
def KeepsUnread : MirroredLedger Row Line → ReaderEvent Row → Prop
  | state, .ledger (.finish _) =>
    (∀ row ∈ state.compacting.phase.kept,
        state.delivered.count row < state.compacting.appended.count row) ∧
      ∀ row ∈ lastRows state.keySelector state.pending, row ∈ state.compacting.phase.kept
  | _, _ => True

variable {state next : MirroredLedger Row Line}

theorem count_append_le_iff {delivered appended kept : List Row} (distinct : kept.Nodup)
    (atMost : ∀ row, delivered.count row ≤ appended.count row) :
    (∀ row, (delivered ++ kept).count row ≤ appended.count row) ↔
      ∀ row ∈ kept, delivered.count row < appended.count row := by
  constructor
  · intro together row member
    have once := together row
    rw [List.count_append, List.count_eq_one_of_mem distinct member] at once
    exact once
  · intro less row
    rw [List.count_append]
    by_cases member : row ∈ kept
    · rw [List.count_eq_one_of_mem distinct member]
      exact less row member
    · rw [List.count_eq_zero_of_not_mem member]
      exact atMost row

theorem keepsUnread_iff {event} (isNumbered : Numbered state) (once : DeliversOnce state)
    (moves : Moves state event next) : KeepsUnread state event ↔ DeliversOnce next := by
  obtain ⟨atMost, all⟩ := once
  cases moves with
  | append row today now phase hotSeq appended =>
    have more := entries_append state isNumbered.cursor row
    refine iff_of_true trivial ⟨fun other => ?_, fun other member => ?_⟩
    · show (state.delivered ++ List.map Prod.snd _).count other ≤ List.count other _
      have given := atMost other
      rw [more, appended, ← List.append_assoc]
      simp only [List.count_append] at given ⊢
      exact Nat.add_le_add_right given _
    · show other ∈ List.map Prod.snd _
      rw [more]
      exact (List.mem_append.mp member).elim
        (fun before => List.mem_append_left _ (all other before)) (List.mem_append_right _)
  | @finish now seq after phase later hotSeq appended =>
    have again := entries_numbered (isNumbered.cursor.trans later) state.compacting.phase.kept
    have atMostGiven : ∀ row, state.delivered.count row ≤ state.compacting.appended.count row := by
      intro row
      have given := atMost row
      rw [List.count_append] at given
      exact (Nat.le_add_right _ _).trans given
    refine and_congr ?_ ?_
    · rw [← count_append_le_iff isNumbered.kept atMostGiven]
      change _ ↔ ∀ row, (state.delivered ++ List.map Prod.snd
        ((numbered seq state.compacting.phase.kept).filter (state.cursor ≤ ·.1))).count row ≤
          after.appended.count row
      rw [again, appended]
    · show _ ↔ ∀ row ∈ lastRows state.keySelector state.pending, row ∈ List.map Prod.snd _
      rw [again]
  | recordsSince =>
    have nothing := entries_read isNumbered.below
    refine iff_of_true trivial ⟨fun row => ?_, List.forall_mem_nil _⟩
    show (state.delivered ++ state.entries ++ List.map Prod.snd _).count row ≤ _
    rw [nothing, List.append_nil]
    exact atMost row
  | other keySelector notFinish hotSeq appended keeps =>
    have free : KeepsUnread state event := by
      unfold KeepsUnread
      split
      · exact absurd rfl (notFinish _)
      · trivial
    refine iff_of_true free ⟨fun row => ?_, all⟩
    rw [appended]
    exact atMost row

end MirroredLedger

/-! ### Any run -/

section

open MirroredLedger

variable [DecidableEq Row] {format : RowFormat Row Line} {base : BaseLedgerEntry Row}
  {config : LedgerConfig}

/-- Whatever is appended, compacted and asked for in any order, the reader is given each row once
and in time exactly where every compaction that ends keeps what the reader was not given, and
nothing else. -/
theorem delivers_once_iff {ledger : Ledger Row Line} {before : List Row}
    {keySelector : Row → String} {events : List (ReaderEvent Row)}
    {last : MirroredLedger Row Line}
    (run : Run (mirroredStep format base config)
      { compacting := ⟨ledger, .idle, before⟩, keySelector } events last) :
    Run.Meets (mirroredStep format base config) KeepsUnread
        { compacting := ⟨ledger, .idle, before⟩, keySelector } events ↔
      ∀ reached, Run.Passes (mirroredStep format base config)
        { compacting := ⟨ledger, .idle, before⟩, keySelector } events reached →
          DeliversOnce reached := by
  have isNumbered : Numbered
      ({ compacting := ⟨ledger, .idle, before⟩, keySelector } : MirroredLedger Row Line) :=
    ⟨List.forall_mem_nil _, Nat.zero_le _, List.nodup_nil⟩
  have once : DeliversOnce
      ({ compacting := ⟨ledger, .idle, before⟩, keySelector } : MirroredLedger Row Line) :=
    ⟨fun row => Nat.zero_le _, List.forall_mem_nil _⟩
  exact run.meets_iff_passes_of_keeps
    (fun _ _ _ isNumbered once taken =>
      keepsUnread_iff isNumbered once (moves_of_mirroredStep taken))
    (fun _ _ _ isNumbered _ taken => isNumbered.moves (moves_of_mirroredStep taken))
    isNumbered once

end

/-! ### A row that was read before -/

section

open LedgerHistory MirroredLedger

/-- The ledger and its reader after some events. -/
def mirrored (events : List (ReaderEvent String)) : MirroredLedger String String :=
  (execute (mirroredStep textFormat textBase {})
    { compacting := {}, keySelector := oneKey } events).getD
      { compacting := {}, keySelector := oneKey }

/-- The steps of one compaction. -/
def compaction : List (ReaderEvent String) :=
  [.compact oneKey, .ledger .readFile, .ledger .removeDirectory, .ledger .makeDirectory,
    .ledger (.readDate newYear), .ledger .writeRows, .ledger (.finish 0)]

/-- The ledger is compacted before the reader asks. -/
def askedAfter : List (ReaderEvent String) :=
  .ledger (.append "first" newYear 0) :: (compaction ++ [.recordsSince])

theorem delivers_once_iff_askedAfter :
    Run.Meets (mirroredStep textFormat textBase {}) KeepsUnread
        { compacting := ⟨{}, .idle, []⟩, keySelector := oneKey } askedAfter ↔
      ∀ reached, Run.Passes (mirroredStep textFormat textBase {})
        { compacting := ⟨{}, .idle, []⟩, keySelector := oneKey } askedAfter reached →
          DeliversOnce reached := by
  have run : Run (mirroredStep textFormat textBase {})
      { compacting := ⟨{}, .idle, []⟩, keySelector := oneKey } askedAfter (mirrored askedAfter) :=
    run_of_execute rfl
  exact delivers_once_iff run

/-- The reader has the row when the ledger is compacted, and is given it again. -/
def askedBefore : List (ReaderEvent String) :=
  .ledger (.append "first" newYear 0) :: .recordsSince :: compaction

theorem first_row_given_again : ¬ ∀ (ledger : Ledger String String) (before : List String)
    (keySelector : String → String) (events : List (ReaderEvent String))
    (last : MirroredLedger String String),
      Run (mirroredStep textFormat textBase {})
        { compacting := ⟨ledger, .idle, before⟩, keySelector } events last →
          DeliversOnce last := by
  intro always
  have run : Run (mirroredStep textFormat textBase {})
      { compacting := ⟨{}, .idle, []⟩, keySelector := oneKey } askedBefore
        (mirrored askedBefore) := run_of_execute rfl
  have twice := (always {} [] oneKey askedBefore (mirrored askedBefore) run).1 "first"
  have given : (mirrored askedBefore).delivered = ["first"] := rfl
  have entries : (mirrored askedBefore).entries = ["first"] := rfl
  have appended : (mirrored askedBefore).compacting.appended = ["first"] := rfl
  rw [given, entries, appended] at twice
  exact absurd twice (by decide)

end

end Senars.Storage
